import NumentaApps.MarketCalendar
import NumentaApps.RangeMerging
import Mathlib.Tactic.Ring
import Mathlib.Tactic.Tauto

/-!
# When the two views of the market calendar agree

A single instant is decided by its weekday, its time of day and the closest holiday before it. The
closed ranges of a period are built day by day and merged.
-/
namespace NumentaApps.Taurus.MarketCalendar
open UtcCalendar RangeMerging

def clockSeconds (clock : ℕ) : ℤ :=
  (clock / 10000 : ℕ) * 3600 + (clock % 10000 / 100 : ℕ) * 60 + (clock % 100 : ℕ)

variable (cal : MarketCalendar)

def openSeconds : ℤ := clockSeconds cal.openTime

def closeSeconds : ℤ := clockSeconds cal.closeTime

def secondOfDay (t : ℤ) : ℤ := cal.localMillis t / secondMillis

/-- The beginning of a day. -/
def midnight (day : ℤ) : ℤ := day * dayMillis - cal.offset * secondMillis

variable {cal} {t h d : ℤ}

theorem clockSeconds_lt {clock : ℕ} (h : IsClock clock) :
    0 ≤ clockSeconds clock ∧ clockSeconds clock < 86400 := by
  obtain ⟨hhour, hminute, hsecond⟩ := h
  rw [clockSeconds]
  omega

theorem clockSeconds_lt_iff {clock clock' : ℕ} (h : IsClock clock) (h' : IsClock clock') :
    clockSeconds clock < clockSeconds clock' ↔ clock < clock' := by
  obtain ⟨hhour, hminute, hsecond⟩ := h
  obtain ⟨hhour', hminute', hsecond'⟩ := h'
  rw [clockSeconds, clockSeconds]
  omega

theorem openSeconds_nonneg : 0 ≤ cal.openSeconds := (clockSeconds_lt cal.openTime_isClock).1

theorem closeSeconds_lt : cal.closeSeconds < 86400 := (clockSeconds_lt cal.closeTime_isClock).2

theorem openSeconds_lt : cal.openSeconds < cal.closeSeconds :=
  (clockSeconds_lt_iff cal.openTime_isClock cal.closeTime_isClock).mpr cal.open_before_close

/-- An instant is its day and the milliseconds of that day. -/
theorem instant_eq (t : ℤ) : t = cal.midnight (cal.localDay t) + cal.localMillis t ∧
    0 ≤ cal.localMillis t ∧ cal.localMillis t < 86400000 := by
  simp only [midnight, localDay, localMillis, dayMillis, hourMillis, secondMillis]
  omega

theorem midnight_succ (d : ℤ) : cal.midnight (d + 1) = cal.midnight d + 86400000 := by
  simp only [midnight, dayMillis, hourMillis, secondMillis]
  omega

theorem midnight_mono {e : ℤ} (h : d ≤ e) : cal.midnight d ≤ cal.midnight e := by
  simp only [midnight, dayMillis, hourMillis, secondMillis]
  omega

theorem midnight_whole (d : ℤ) : cal.midnight d % 1000 = 0 := by
  simp only [midnight, dayMillis, hourMillis, secondMillis]
  omega

theorem localDay_mono {u : ℤ} (h : t ≤ u) : cal.localDay t ≤ cal.localDay u := by
  simp only [localDay, dayMillis, hourMillis, secondMillis]
  omega

theorem localDay_eq_iff : cal.localDay t = d ↔ cal.midnight d ≤ t ∧ t < cal.midnight (d + 1) := by
  simp only [localDay, midnight, dayMillis, hourMillis, secondMillis]
  omega

theorem localDay_add (t i : ℤ) : cal.localDay (t + i * dayMillis) = cal.localDay t + i := by
  simp only [localDay, dayMillis, hourMillis, secondMillis]
  omega

/-- Seconds of the day compared with an instant. -/
theorem le_secondOfDay_iff (s : ℤ) :
    s ≤ cal.secondOfDay t ↔ cal.midnight (cal.localDay t) + s * 1000 ≤ t := by
  obtain ⟨heq, hnonneg, hlt⟩ := cal.instant_eq t
  simp only [secondOfDay, secondMillis]
  omega

theorem hhmmss_lt_iff {clock : ℕ} (h : IsClock clock) :
    cal.hhmmss t < clock ↔ cal.secondOfDay t < clockSeconds clock := by
  obtain ⟨hhour, hminute, hsecond⟩ := h
  obtain ⟨_, hnonneg, hlt⟩ := cal.instant_eq t
  simp only [hhmmss, secondOfDay, clockSeconds, hourMillis, secondMillis]
  omega

theorem lt_hhmmss_iff {clock : ℕ} (h : IsClock clock) :
    clock < cal.hhmmss t ↔ clockSeconds clock < cal.secondOfDay t := by
  obtain ⟨hhour, hminute, hsecond⟩ := h
  obtain ⟨_, hnonneg, hlt⟩ := cal.instant_eq t
  simp only [hhmmss, secondOfDay, clockSeconds, hourMillis, secondMillis]
  omega

theorem isOpen_iff : cal.isOpen t = true ↔
    cal.workWeek (weekday (cal.localDay t)) = true ∧ cal.openSeconds ≤ cal.secondOfDay t ∧
      cal.secondOfDay t ≤ cal.closeSeconds ∧ cal.isHoliday t = false := by
  have hopen := @hhmmss_lt_iff cal t _ cal.openTime_isClock
  have hclose := @lt_hhmmss_iff cal t _ cal.closeTime_isClock
  rw [isOpen]
  by_cases hwork : cal.workWeek (weekday (cal.localDay t)) = true
  · rw [if_neg (by rw [hwork]; decide)]
    by_cases hhours : cal.hhmmss t < cal.openTime ∨ cal.closeTime < cal.hhmmss t
    · rw [if_pos (by simpa using hhours)]
      rw [hopen, hclose] at hhours
      refine iff_of_false (by decide) fun h => ?_
      obtain ⟨_, hle, hle', _⟩ := h
      simp only [openSeconds, closeSeconds] at hle hle'
      omega
    · rw [if_neg (by simpa using hhours), Bool.not_eq_true']
      rw [hopen, hclose] at hhours
      simp only [openSeconds, closeSeconds]
      refine ⟨fun h => ⟨hwork, by omega, by omega, h⟩, fun h => h.2.2.2⟩
  · rw [if_pos (by simpa using hwork)]
    exact iff_of_false (by decide) fun h => hwork h.1

theorem getLast_greatest {l : List ℤ} (hl : l.Pairwise (· < ·)) (h : l.getLast? = some t) :
    t ∈ l ∧ ∀ u ∈ l, u ≤ t := by
  obtain ⟨front, rfl⟩ := List.getLast?_eq_some_iff.mp h
  refine ⟨List.mem_append_right _ (List.mem_singleton_self t), fun u hu => ?_⟩
  rcases List.mem_append.mp hu with hfront | hlast
  · exact Int.le_of_lt ((List.pairwise_append.mp hl).2.2 u hfront t (List.mem_singleton_self t))
  · exact Int.le_of_eq (List.mem_singleton.mp hlast)

theorem closestHoliday_spec : cal.closestHoliday t = some h →
    h ∈ cal.holidays ∧ h ≤ t ∧ ∀ h' ∈ cal.holidays, h' ≤ t → h' ≤ h := by
  intro hclosest
  obtain ⟨hmem, hgreatest⟩ := getLast_greatest (cal.holidays_ascending.filter _) hclosest
  obtain ⟨hholiday, hle⟩ := List.mem_filter.mp hmem
  refine ⟨hholiday, by simpa using hle, fun h' hh' hle' => ?_⟩
  exact hgreatest h' (List.mem_filter.mpr ⟨hh', by simpa using hle'⟩)

theorem closestHoliday_none : cal.closestHoliday t = none → ∀ h ∈ cal.holidays, t < h := by
  intro hclosest h hh
  have hnil := List.getLast?_eq_none_iff.mp hclosest
  by_contra hle
  have hmem : h ∈ cal.holidays.filter (· ≤ t) := List.mem_filter.mpr ⟨hh, by simpa using hle⟩
  rw [hnil] at hmem
  cases hmem

/-- The year and the day of the year name the day. -/
theorem sameDay_iff {a b : ℤ} :
    yearOfDay a = yearOfDay b ∧ dayOfYear a = dayOfYear b ↔ a = b := by
  constructor
  · intro ⟨hyear, hday⟩
    have hsub := dayOfYear_sub hyear
    omega
  · rintro rfl
    exact ⟨rfl, rfl⟩

/-- The closest holiday is the one that decides. -/
theorem isHoliday_iff : cal.isHoliday t = true ↔
    ∃ h ∈ cal.holidays, h < t ∧ cal.localDay h = cal.localDay t ∧
      ∀ h' ∈ cal.holidays, h' ≤ t → h' ≤ h := by
  rw [isHoliday]
  cases hclosest : cal.closestHoliday t with
  | none =>
    refine iff_of_false Bool.false_ne_true fun ⟨h, hh, hlt, _⟩ => ?_
    have hlater := closestHoliday_none hclosest h hh
    omega
  | some h =>
    obtain ⟨hh, hle, hclosest⟩ := closestHoliday_spec hclosest
    simp only [Bool.and_eq_true, decide_eq_true_eq, sameDay_iff]
    constructor
    · intro ⟨hday, hlt⟩
      exact ⟨h, hh, hlt, hday, hclosest⟩
    · intro ⟨h', hh', hlt, hday, hclosest'⟩
      obtain rfl : h = h' := Int.le_antisymm (hclosest' h hh hle) (hclosest h' hh' (Int.le_of_lt hlt))
      exact ⟨hday, hlt⟩

theorem isHoliday_of_before (hh : h ∈ cal.holidays) (hlt : h < t)
    (hday : cal.localDay h = cal.localDay t) (ht : t ∉ cal.holidays) : cal.isHoliday t = true := by
  apply isHoliday_iff.mpr
  cases hclosest : cal.closestHoliday t with
  | none =>
    have hlater := closestHoliday_none hclosest h hh
    omega
  | some h' =>
    obtain ⟨hh', hle', hclosest'⟩ := closestHoliday_spec hclosest
    have hge := hclosest' h hh (Int.le_of_lt hlt)
    have hne : h' ≠ t := by
      intro heq
      exact ht (heq ▸ hh')
    refine ⟨h', hh', by omega, ?_, hclosest'⟩
    have hmono := @localDay_mono cal _ _ hge
    have hmono' := @localDay_mono cal _ _ hle'
    omega

/-! ### The ranges of a day and of a holiday -/

variable (cal) in
def dayRange (d : ℤ) : ℤ × ℤ :=
  (if cal.workWeek (weekday d) then cal.midnight d + (cal.closeSeconds + 1) * 1000
    else cal.midnight d,
    cal.midnight (d + 1) + (cal.openSeconds - 1) * 1000)

theorem setClock_eq (t : ℤ) (clock : ℕ) : cal.setClock t clock =
    cal.midnight (cal.localDay t) + clockSeconds clock * 1000 + cal.localMillis t % 1000 := by
  have heq := (cal.instant_eq t).1
  simp only [setClock, clockSeconds, hourMillis, secondMillis]
  omega

theorem clearMillis_setClock {clock : ℕ} (hclock : IsClock clock) :
    cal.clearMillis (cal.setClock t clock) =
      cal.midnight (cal.localDay t) + clockSeconds clock * 1000 := by
  obtain ⟨hnonneg, hlt⟩ := clockSeconds_lt hclock
  rw [clearMillis, setClock_eq]
  simp only [localMillis, midnight, dayMillis, hourMillis, secondMillis]
  omega

theorem dailyRange_eq (t : ℤ) : cal.dailyRange t = cal.dayRange (cal.localDay t) := by
  have hzero : IsClock 0 := ⟨by decide, by decide, by decide⟩
  have hnext : cal.localDay (t + dayMillis) = cal.localDay t + 1 := by
    rw [← localDay_add, Int.one_mul]
  rw [dailyRange, dayRange, clearMillis_setClock cal.closeTime_isClock,
    clearMillis_setClock cal.openTime_isClock, clearMillis_setClock hzero, hnext]
  simp only [openSeconds, closeSeconds, secondMillis]
  split
  · ext
    · simp only
      omega
    · simp only
      omega
  · ext
    · simp [clockSeconds]
    · simp only
      omega

theorem holidayRange_eq (hh : h ∈ cal.holidays) : cal.holidayRange h =
    (h, cal.midnight (cal.localDay h + 1) + (cal.openSeconds - 1) * 1000) := by
  have hwhole := cal.holidays_whole h hh
  have hnext : cal.localDay (h + dayMillis) = cal.localDay h + 1 := by
    rw [← localDay_add, Int.one_mul]
  rw [holidayRange, setClock_eq, hnext]
  simp only [openSeconds, localMillis, dayMillis, hourMillis, secondMillis] at hwhole ⊢
  ext
  · rfl
  · simp only
    omega

/-! ### The search for an open hour -/

variable (cal) in
/-- Some hour of the day, with the minutes and seconds of the instant, is within opening hours. -/
def HourHit (t : ℤ) : Prop :=
  ∃ s, cal.openSeconds ≤ s ∧ s ≤ cal.closeSeconds ∧ s % 3600 = cal.secondOfDay t % 3600

theorem hourHit_of_isOpen {k : ℤ} (h : cal.isOpen (t + k * hourMillis) = true) : cal.HourHit t := by
  obtain ⟨_, hopen, hclose, _⟩ := isOpen_iff.mp h
  refine ⟨_, hopen, hclose, ?_⟩
  simp only [secondOfDay, localMillis, dayMillis, hourMillis, secondMillis]
  omega

/-- Every seven days have a working day. -/
theorem exists_workday (b : ℤ) : ∃ d, b ≤ d ∧ d < b + 7 ∧ cal.workWeek (weekday d) = true := by
  obtain ⟨w, hw⟩ := cal.works
  refine ⟨b + (w.val - 4 - b) % 7, by omega, by omega, ?_⟩
  have heq : weekday (b + (w.val - 4 - b) % 7) = w := by
    ext
    have hlt := w.isLt
    simp only [weekday]
    omega
  rw [heq, hw]

theorem exists_bounds (l : List ℤ) : ∃ low high, ∀ x ∈ l, low ≤ x ∧ x ≤ high := by
  induction l with
  | nil => exact ⟨0, 0, List.forall_mem_nil _⟩
  | cons x l ih =>
    obtain ⟨low, high, hbounds⟩ := ih
    refine ⟨min x low, max x high, List.forall_mem_cons.mpr ⟨by omega, fun y hy => ?_⟩⟩
    have hy := hbounds y hy
    omega

theorem isOpen_of_workday {s ms : ℤ} (hwork : cal.workWeek (weekday d) = true)
    (hopen : cal.openSeconds ≤ s) (hclose : s ≤ cal.closeSeconds) (hms : 0 ≤ ms) (hms' : ms < 1000)
    (hday : ∀ h ∈ cal.holidays, cal.localDay h ≠ d) :
    cal.isOpen (cal.midnight d + s * 1000 + ms) = true := by
  have hnonneg := @openSeconds_nonneg cal
  have hlt := @closeSeconds_lt cal
  have heq : cal.localDay (cal.midnight d + s * 1000 + ms) = d := by
    rw [localDay_eq_iff, midnight_succ]
    omega
  have hsecond : cal.secondOfDay (cal.midnight d + s * 1000 + ms) = s := by
    simp only [secondOfDay, localMillis, midnight, dayMillis, hourMillis, secondMillis]
    omega
  rw [isOpen_iff, heq, hsecond]
  refine ⟨hwork, hopen, hclose, Bool.eq_false_iff.mpr fun hholiday => ?_⟩
  obtain ⟨h, hh, _, hsame, _⟩ := isHoliday_iff.mp hholiday
  exact hday h hh (hsame.trans heq)

/-- Instants with the same minutes, seconds and milliseconds are whole hours apart. -/
theorem hours_between {s : ℤ} (hs : s % 3600 = cal.secondOfDay t % 3600) :
    ∃ k : ℤ, cal.midnight d + s * 1000 + cal.localMillis t % 1000 = t + k * hourMillis := by
  refine ⟨(cal.midnight d + s * 1000 + cal.localMillis t % 1000 - t) / hourMillis, ?_⟩
  simp only [secondOfDay, localMillis, midnight, dayMillis, hourMillis, secondMillis] at hs ⊢
  omega

/-- Before all holidays every working day is open, and so it is after them. -/
theorem exists_open_hours (h : cal.HourHit t) :
    (∃ k : ℕ, cal.isOpen (t + k * -hourMillis) = true) ∧
      ∃ k : ℕ, cal.isOpen (t + k * hourMillis) = true := by
  obtain ⟨s, hopen, hclose, hs⟩ := h
  obtain ⟨low, high, hbounds⟩ := exists_bounds (cal.holidays.map cal.localDay)
  have hnonneg := @openSeconds_nonneg cal
  have hlt := @closeSeconds_lt cal
  have heq := (cal.instant_eq t)
  have hms : 0 ≤ cal.localMillis t % 1000 ∧ cal.localMillis t % 1000 < 1000 := by omega
  constructor
  · obtain ⟨d, _, hd, hwork⟩ := @exists_workday cal (min (low - 7) (cal.localDay t - 7))
    obtain ⟨k, hk⟩ := @hours_between cal t d s hs
    have hisOpen := isOpen_of_workday hwork hopen hclose hms.1 hms.2 (by
      intro h hh hday
      have hbound := hbounds _ (List.mem_map_of_mem hh)
      omega)
    have hmid := @midnight_mono cal (d + 1) (cal.localDay t) (by omega)
    rw [midnight_succ] at hmid
    refine ⟨(-k).toNat, ?_⟩
    have hcast : t + ((-k).toNat : ℤ) * -hourMillis = t + k * hourMillis := by
      simp only [hourMillis, secondMillis] at hk ⊢
      omega
    rw [hcast, ← hk]
    exact hisOpen
  · obtain ⟨d, hd, _, hwork⟩ := @exists_workday cal (max (high + 1) (cal.localDay t + 1))
    obtain ⟨k, hk⟩ := @hours_between cal t d s hs
    have hisOpen := isOpen_of_workday hwork hopen hclose hms.1 hms.2 (by
      intro h hh hday
      have hbound := hbounds _ (List.mem_map_of_mem hh)
      omega)
    have hmid := @midnight_mono cal (cal.localDay t + 1) d (by omega)
    rw [midnight_succ] at hmid
    refine ⟨k.toNat, ?_⟩
    have hcast : t + (k.toNat : ℤ) * hourMillis = t + k * hourMillis := by
      simp only [hourMillis, secondMillis] at hk ⊢
      omega
    rw [hcast, ← hk]
    exact hisOpen

theorem openInstant_spec {step u : ℤ} {fuel : ℕ} (h : cal.openInstant step fuel t = some u) :
    cal.isOpen u = true ∧ ∃ k : ℕ, u = t + k * step ∧ ∀ j < k, cal.isOpen (t + j * step) = false := by
  induction fuel generalizing t with
  | zero => cases h
  | succ fuel ih =>
    rw [openInstant] at h
    by_cases hopen : cal.isOpen t = true
    · rw [if_pos hopen] at h
      cases h
      exact ⟨hopen, 0, by omega, fun j hj => absurd hj (Nat.not_lt_zero j)⟩
    · rw [if_neg hopen] at h
      obtain ⟨hu, k, hk, hbefore⟩ := ih h
      refine ⟨hu, k + 1, ?_, fun j hj => ?_⟩
      · rw [hk]
        push_cast
        ring
      · cases j with
        | zero =>
          rw [Nat.cast_zero, Int.zero_mul, Int.add_zero]
          exact Bool.eq_false_iff.mpr hopen
        | succ j =>
          have hj := hbefore j (by omega)
          have heq : t + step + j * step = t + (j + 1 : ℕ) * step := by
            push_cast
            ring
          rwa [heq] at hj

theorem openInstant_ends {step : ℤ} {k fuel : ℕ} (h : cal.isOpen (t + k * step) = true)
    (hfuel : k < fuel) : ∃ u, cal.openInstant step fuel t = some u := by
  induction fuel generalizing t k with
  | zero => omega
  | succ fuel ih =>
    rw [openInstant]
    by_cases hopen : cal.isOpen t = true
    · exact ⟨t, if_pos hopen⟩
    · rw [if_neg hopen]
      cases k with
      | zero =>
        rw [Nat.cast_zero, Int.zero_mul, Int.add_zero] at h
        exact absurd h hopen
      | succ k =>
        have heq : t + (k + 1 : ℕ) * step = t + step + k * step := by
          push_cast
          ring
        rw [heq] at h
        exact ih h (by omega)

/-! ### The closed ranges -/

section Ranges
variable {r r' : ℤ × ℤ} {rs closed : List (ℤ × ℤ)} {fromDate toDate : ℤ}

theorem mem_addRange : r' ∈ addRange r rs ↔ r' = r ∨ r' ∈ rs := by
  induction rs with
  | nil => simp [addRange]
  | cons x rs ih =>
    rw [addRange]
    split
    · next heq =>
      subst heq
      simp
    · split
      · simp
      · rw [List.mem_cons, ih, List.mem_cons]
        tauto

theorem le_of_precedes (h : precedes r r' = true) : r.1 ≤ r'.1 := by
  rw [precedes] at h
  split at h
  · omega
  · have hlt : r.1 < r'.1 := by simpa using h
    omega

theorem le_of_not_precedes (h : ¬ precedes r r' = true) : r'.1 ≤ r.1 := by
  rw [precedes] at h
  split at h
  · omega
  · have hnlt : ¬ r.1 < r'.1 := by simpa using h
    omega

theorem addRange_ascending (h : rs.Pairwise fun r r' => r.1 ≤ r'.1) :
    (addRange r rs).Pairwise fun r r' => r.1 ≤ r'.1 := by
  induction rs with
  | nil => exact List.pairwise_singleton _ _
  | cons x rs ih =>
    obtain ⟨hx, hrs⟩ := List.pairwise_cons.mp h
    rw [addRange]
    split
    · exact h
    · split
      · next hprecedes =>
        refine List.pairwise_cons.mpr ⟨fun y hy => ?_, h⟩
        have hle := le_of_precedes hprecedes
        rcases List.mem_cons.mp hy with rfl | hmem
        · exact hle
        · exact le_trans hle (hx y hmem)
      · next hnot =>
        refine List.pairwise_cons.mpr ⟨fun y hy => ?_, ih hrs⟩
        rcases mem_addRange.mp hy with rfl | hmem
        · exact le_of_not_precedes hnot
        · exact hx y hmem

theorem foldl_addRange {α : Type} (f : α → ℤ × ℤ) (xs : List α)
    (h : rs.Pairwise fun r r' => r.1 ≤ r'.1) :
    (xs.foldl (fun closed x => addRange (f x) closed) rs).Pairwise (fun r r' => r.1 ≤ r'.1) ∧
      ∀ r, r ∈ xs.foldl (fun closed x => addRange (f x) closed) rs ↔
        r ∈ rs ∨ ∃ x ∈ xs, r = f x := by
  induction xs generalizing rs with
  | nil => exact ⟨h, fun r => by simp⟩
  | cons x xs ih =>
    obtain ⟨hascending, hmem⟩ := ih (@addRange_ascending (f x) _ h)
    refine ⟨hascending, fun r => ?_⟩
    rw [List.foldl_cons, hmem, mem_addRange]
    simp only [List.mem_cons, exists_eq_or_imp]
    tauto

theorem dailyRanges_spec {fuel : ℕ} {current : ℤ} (h : rs.Pairwise fun r r' => r.1 ≤ r'.1)
    (hclosed : cal.dailyRanges toDate fuel current rs = some closed) :
    closed.Pairwise (fun r r' => r.1 ≤ r'.1) ∧ ∀ r, r ∈ closed ↔
      r ∈ rs ∨ ∃ i : ℕ, current + i * dayMillis < toDate ∧
        r = cal.dailyRange (current + i * dayMillis) := by
  induction fuel generalizing current rs with
  | zero => cases hclosed
  | succ fuel ih =>
    rw [dailyRanges] at hclosed
    by_cases hlt : current < toDate
    · rw [if_pos hlt] at hclosed
      obtain ⟨hascending, hmem⟩ := ih (addRange_ascending h) hclosed
      refine ⟨hascending, fun r => ?_⟩
      rw [hmem, mem_addRange]
      constructor
      · rintro ((rfl | hr) | ⟨i, hi, rfl⟩)
        · refine .inr ⟨0, ?_, ?_⟩ <;> rw [Nat.cast_zero, Int.zero_mul, Int.add_zero]
          exact hlt
        · exact .inl hr
        · have heq : current + dayMillis + i * dayMillis = current + (i + 1 : ℕ) * dayMillis := by
            push_cast
            ring
          rw [heq] at hi ⊢
          exact .inr ⟨i + 1, hi, rfl⟩
      · rintro (hr | ⟨i, hi, rfl⟩)
        · exact .inl (.inr hr)
        · cases i with
          | zero =>
            rw [Nat.cast_zero, Int.zero_mul, Int.add_zero]
            exact .inl (.inl rfl)
          | succ i =>
            have heq : current + (i + 1 : ℕ) * dayMillis = current + dayMillis + i * dayMillis := by
              push_cast
              ring
            rw [heq] at hi ⊢
            exact .inr ⟨i, hi, rfl⟩
    · rw [if_neg hlt] at hclosed
      cases hclosed
      refine ⟨h, fun r => ⟨.inl, ?_⟩⟩
      rintro (hr | ⟨i, hi, _⟩)
      · exact hr
      · simp only [dayMillis, hourMillis, secondMillis] at hi
        omega

theorem dailyRanges_ends {n fuel : ℕ} {current : ℤ} (hn : toDate - current ≤ n * dayMillis)
    (hfuel : n < fuel) : ∃ closed, cal.dailyRanges toDate fuel current rs = some closed := by
  induction fuel generalizing n current rs with
  | zero => omega
  | succ fuel ih =>
    rw [dailyRanges]
    by_cases hlt : current < toDate
    · rw [if_pos hlt]
      simp only [dayMillis, hourMillis, secondMillis] at hn ih ⊢
      exact @ih _ (n - 1) _ (by omega) (by omega)
    · exact ⟨rs, if_neg hlt⟩

/-- From a first range after 1970 on, the pass is the merge of the ranges. -/
theorem foldl_consolidateStep {results : List (ℤ × ℤ)} (h : Ascending r rs) (hpos : 0 < r.1) :
    let s := rs.foldl consolidateStep ⟨r.1, r.2, results⟩
    s.results ++ [(s.start, s.last)] = results ++ merge r rs := by
  induction rs generalizing r results with
  | nil => rfl
  | cons x rs ih =>
    have hle := h.nonempty r List.mem_cons_self
    have hfirst := (List.pairwise_cons.mp h.ascending).1 x List.mem_cons_self
    have hnonzero : r.1 ≠ 0 ∧ r.2 ≠ 0 := by omega
    rw [List.foldl_cons, merge, consolidateStep]
    by_cases hextends : x.1 ≤ r.2
    · rw [if_pos hextends, if_pos hextends]
      exact @ih (r.1, max r.2 x.2) results h.extend hpos
    · rw [if_neg hextends, if_neg hextends, if_pos hnonzero]
      have hrest := @ih x (results ++ [(r.1, r.2)]) h.next (by omega)
      simp only at hrest ⊢
      rw [hrest, List.append_assoc]
      rfl

/-- All merged ranges are returned, except a last one that begins at the end of the period or after
it. -/
theorem consolidate_spec (h : Ascending r rs) (hpos : 0 < r.1) :
    ∃ front last, merge r rs = front ++ [last] ∧
      consolidate (r :: rs) toDate = if last.1 < toDate then front ++ [last] else front := by
  have hmerge := @foldl_consolidateStep _ _ [] h hpos
  have hstart : consolidateStep ⟨0, 0, []⟩ r = ⟨r.1, r.2, []⟩ := by
    rw [consolidateStep, if_neg (by simpa using hpos)]
    rfl
  refine ⟨_, _, hmerge.symm, ?_⟩
  rw [consolidate, List.foldl_cons, hstart]

/-- Up to the end of the period the ranges that are returned cover what the ranges that begin before
it cover, if those that begin after it are one. -/
theorem covered_iff (h : Ascending r rs) (hpos : 0 < r.1)
    (hafter : ∀ x ∈ r :: rs, ∀ y ∈ r :: rs, toDate ≤ x.1 → x.1 < y.1 → y.1 ≤ x.2) (ht : t ≤ toDate) :
    (∃ m ∈ consolidate (r :: rs) toDate, Within m t) ↔
      ∃ x ∈ r :: rs, x.1 < toDate ∧ Within x t := by
  obtain ⟨front, last, hmerge, hresults⟩ := @consolidate_spec _ _ toDate h hpos
  have happart := merge_apart h
  rw [hmerge] at happart
  obtain ⟨_, _, hbefore⟩ := List.pairwise_append.mp happart
  have hlastmem : last ∈ merge r rs := by
    rw [hmerge]
    exact List.mem_append_right _ (List.mem_singleton_self last)
  -- only the last one may begin after the period
  have hfront : ∀ m ∈ front, m.1 < toDate := by
    intro m hm
    have hmem : m ∈ merge r rs := by
      rw [hmerge]
      exact List.mem_append_left _ hm
    by_contra hge
    obtain ⟨x, hx, hxm⟩ := exists_first hmem
    obtain ⟨y, hy, hym⟩ := exists_first hlastmem
    have hlt := hbefore m hm last (List.mem_singleton_self last)
    have hnonempty := merge_nonempty h hmem
    have hend := le_of_within h hmem hx ⟨by omega, by omega⟩
    have hoverlap := hafter x hx y hy (by omega) (by omega)
    omega
  rw [hresults]
  constructor
  · intro ⟨m, hm, hle, hle'⟩
    have hmem : m ∈ merge r rs ∧ m.1 < toDate := by
      split at hm
      · next hlast =>
        rw [hmerge]
        refine ⟨hm, ?_⟩
        rcases List.mem_append.mp hm with hm | hm
        · exact hfront m hm
        · rw [List.mem_singleton.mp hm]
          exact hlast
      · rw [hmerge]
        exact ⟨List.mem_append_left _ hm, hfront m hm⟩
    rcases lt_or_eq_of_le hle with hlt | heq
    · obtain ⟨x, hx, hxt, hxt'⟩ := exists_before hmem.1 hlt hle'
      exact ⟨x, hx, by omega, by omega, hxt'⟩
    · obtain ⟨x, hx, hxm⟩ := exists_first hmem.1
      have hnonempty := h.nonempty x hx
      exact ⟨x, hx, by omega, by omega, by omega⟩
  · intro ⟨x, hx, hlt, hwithin⟩
    obtain ⟨m, hm, hfirst, hlast⟩ := exists_merged h hx
    refine ⟨m, ?_, by exact le_trans hfirst hwithin.1, le_trans hwithin.2 hlast⟩
    rw [hmerge] at hm
    split
    · exact hm
    · next hnot =>
      rcases List.mem_append.mp hm with hm | hm
      · exact hm
      · rw [← List.mem_singleton.mp hm] at hnot
        omega

end Ranges

end NumentaApps.Taurus.MarketCalendar
