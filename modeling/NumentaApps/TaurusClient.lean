import NumentaApps.TaurusDatabase
import NumentaApps.UtcCalendar

/-!
# The hourly instance data of the server

`TaurusClient.getAllInstanceData` queries the hourly table one day at the time. The days are counted
by their numbers in the year.
-/
namespace NumentaApps.Taurus
open UtcCalendar

variable {V : Type}

/-- Counted from 1970 on. -/
def hourOf (time : ℤ) : ℤ := time / millisPerHour

def dayOf (time : ℤ) : ℤ := time / millisPerDay

def hourOfDay (time : ℤ) : ℤ := hourOf time % 24

/-- An item of the table, which has instances with their values at every hour. -/
def createInstanceData (hour : ℤ) (item : String × V) : InstanceData V :=
  ⟨item.1, hour * millisPerHour, item.2⟩

def getAllInstanceDataForDate (table : ℤ → List (String × V)) (day fromHour toHour : ℤ)
    (ascending : Bool) : List (InstanceData V) :=
  let hours := (List.range 24).filter fun (hour : ℕ) => fromHour ≤ hour ∧ hour ≤ toHour
  (if ascending then hours else hours.reverse).flatMap fun (hour : ℕ) =>
    (table (day * 24 + hour)).map (createInstanceData (day * 24 + hour))

/-- At the end of a year the first day may have the greater number. -/
def totalDays (fromDay toDay : ℤ) : ℤ :=
  let totalDays := toDay - fromDay
  if totalDays < 0 then totalDays + 365 else totalDays

def getAllInstanceData (table : ℤ → List (String × V)) (fromTime toTime : ℤ) (ascending : Bool) :
    List (InstanceData V) :=
  let fromDay := dayOfYear (dayOf fromTime)
  let toDay := dayOfYear (dayOf toTime)
  if fromDay = toDay then
    getAllInstanceDataForDate table (dayOf fromTime) (hourOfDay fromTime) (hourOfDay toTime)
      ascending
  else
    let date := if ascending then dayOf fromTime else dayOf toTime
    let interval := if ascending then 1 else -1
    (List.range (totalDays fromDay toDay + 1).toNat).flatMap fun (i : ℕ) =>
      getAllInstanceDataForDate table (date + i * interval) 0 23 ascending

/-! ## What is received -/

theorem mem_getAllInstanceDataForDate {table : ℤ → List (String × V)} {day fromHour toHour : ℤ}
    {ascending : Bool} {data : InstanceData V} :
    data ∈ getAllInstanceDataForDate table day fromHour toHour ascending ↔
      ∃ hour : ℕ, hour < 24 ∧ fromHour ≤ hour ∧ hour ≤ toHour ∧
        ∃ item ∈ table (day * 24 + hour), createInstanceData (day * 24 + hour) item = data := by
  have hhours : ∀ hour, hour ∈ (if ascending then
      (List.range 24).filter fun (hour : ℕ) => decide (fromHour ≤ hour ∧ hour ≤ toHour)
      else ((List.range 24).filter fun (hour : ℕ) =>
        decide (fromHour ≤ hour ∧ hour ≤ toHour)).reverse) ↔
      hour < 24 ∧ fromHour ≤ hour ∧ hour ≤ toHour := by
    intro hour
    split <;> simp
  simp only [getAllInstanceDataForDate, List.mem_flatMap, hhours, List.mem_map, and_assoc]

/-- What is received is in the table. -/
theorem of_mem_getAllInstanceData {table : ℤ → List (String × V)} {fromTime toTime : ℤ}
    {ascending : Bool} {data : InstanceData V}
    (h : data ∈ getAllInstanceData table fromTime toTime ascending) :
    ∃ hour, ∃ item ∈ table hour, createInstanceData hour item = data := by
  simp only [getAllInstanceData] at h
  split at h
  · obtain ⟨hour, -, -, -, hitem⟩ := mem_getAllInstanceDataForDate.mp h
    exact ⟨_, hitem⟩
  · obtain ⟨i, -, h⟩ := List.mem_flatMap.mp h
    obtain ⟨hour, -, -, -, hitem⟩ := mem_getAllInstanceDataForDate.mp h
    exact ⟨_, hitem⟩

/-- From a leap year into the next the days are miscounted by one. -/
def DaysCounted (fromTime toTime : ℤ) : Prop :=
  yearOfDay (dayOf fromTime) = yearOfDay (dayOf toTime) ∨
    isLeapYear (yearOfDay (dayOf fromTime)) = false

/-- The number in the year tells the days of half a month apart, and counts no fewer. -/
theorem totalDays_of_daysCounted {fromTime toTime : ℤ} (hle : dayOf fromTime ≤ dayOf toTime)
    (hdays : dayOf toTime < dayOf fromTime + 355) (hcounted : DaysCounted fromTime toTime) :
    (dayOfYear (dayOf fromTime) = dayOfYear (dayOf toTime) ↔ dayOf fromTime = dayOf toTime) ∧
      dayOf toTime - dayOf fromTime ≤
        totalDays (dayOfYear (dayOf fromTime)) (dayOfYear (dayOf toTime)) := by
  by_cases hyear : yearOfDay (dayOf fromTime) = yearOfDay (dayOf toTime)
  · have hsub := dayOfYear_sub hyear
    constructor
    · omega
    · simp only [totalDays]
      rw [if_neg (by omega)]
      exact Int.le_of_eq hsub.symm
  · have hnext := yearOfDay_eq_succ hle (by omega) hyear
    have hsub := dayOfYear_sub_next hnext
    have hlength := daysInYear_of_not_leap (hcounted.resolve_left hyear)
    constructor
    · constructor
      · omega
      · intro heq
        exact absurd (congrArg yearOfDay heq) hyear
    · simp only [totalDays]
      rw [if_pos (by omega)]
      omega

/-- All hours between are received. -/
theorem mem_getAllInstanceData {table : ℤ → List (String × V)} {fromTime toTime hour : ℤ}
    (hfrom : fromTime ≤ hour * millisPerHour) (hto : hour * millisPerHour ≤ toTime)
    (hdays : toTime - fromTime < 354 * millisPerDay) (hcounted : DaysCounted fromTime toTime)
    {item : String × V} (hitem : item ∈ table hour) :
    createInstanceData hour item ∈ getAllInstanceData table fromTime toTime false := by
  have hday : dayOf fromTime ≤ hour / 24 ∧ hour / 24 ≤ dayOf toTime := by
    simp only [dayOf, millisPerDay, millisPerHour, millisPerMinute] at *
    omega
  have hbound : dayOf toTime < dayOf fromTime + 355 := by
    simp only [dayOf, millisPerDay, millisPerHour, millisPerMinute] at *
    omega
  obtain ⟨hsame, htotal⟩ := totalDays_of_daysCounted (by omega) hbound hcounted
  -- the hour in its day
  have hsplit : hour / 24 * 24 + ((hour % 24).toNat : ℤ) = hour := by omega
  simp only [getAllInstanceData]
  split
  · next heq =>
    have heq := hsame.mp heq
    have hin : dayOf fromTime = hour / 24 := by omega
    apply mem_getAllInstanceDataForDate.mpr
    refine ⟨(hour % 24).toNat, by omega, ?_, ?_, item, ?_, ?_⟩
    · simp only [hourOfDay, hourOf, dayOf, millisPerDay, millisPerHour, millisPerMinute] at *
      omega
    · simp only [hourOfDay, hourOf, dayOf, millisPerDay, millisPerHour, millisPerMinute] at *
      omega
    · rwa [hin, hsplit]
    · rw [hin, hsplit]
  · apply List.mem_flatMap.mpr
    refine ⟨(dayOf toTime - hour / 24).toNat, List.mem_range.mpr (by omega), ?_⟩
    have hin : dayOf toTime + ((dayOf toTime - hour / 24).toNat : ℤ) * -1 = hour / 24 := by omega
    simp only [Bool.false_eq_true, if_false]
    rw [hin]
    apply mem_getAllInstanceDataForDate.mpr
    refine ⟨(hour % 24).toNat, by omega, by omega, by omega, item, ?_, ?_⟩
    · rwa [hsplit]
    · rw [hsplit]

end NumentaApps.Taurus
