import NumentaApps.ClosedHours

/-!
# The closed ranges of a period and the open instants

A period begins at an open instant and ends at one. The ranges that are collected for it cover its
closed seconds, and the beginnings of its holidays.
-/
namespace NumentaApps.Taurus.MarketCalendar
open UtcCalendar RangeMerging

/-- The instants that the searches for an open hour end at. -/
structure Period (cal : MarketCalendar) (start finish fromDate toDate : ℤ) : Prop where
  isOpen_from : cal.isOpen fromDate = true
  isOpen_to : cal.isOpen toDate = true
  from_le : fromDate ≤ start
  le_to : finish ≤ toDate
  from_eq : cal.isOpen start = true → fromDate = start
  to_eq : cal.isOpen finish = true → toDate = finish

/-- What the ranges collected for a period are. -/
structure Collects (cal : MarketCalendar) (fromDate toDate : ℤ) (closed : List (ℤ × ℤ)) : Prop where
  ascending : closed.Pairwise fun r r' => r.1 ≤ r'.1
  holiday : ∀ h ∈ cal.holidays, fromDate ≤ h → h ≤ toDate → cal.holidayRange h ∈ closed
  day : ∀ d, cal.localDay fromDate ≤ d → d < cal.localDay toDate → cal.dayRange d ∈ closed
  first : fromDate < toDate → cal.dayRange (cal.localDay fromDate) ∈ closed
  cases : ∀ r ∈ closed,
    (∃ h ∈ cal.holidays, fromDate ≤ h ∧ h ≤ toDate ∧ r = cal.holidayRange h) ∨
      fromDate < toDate ∧
        ∃ d, cal.localDay fromDate ≤ d ∧ d ≤ cal.localDay toDate ∧ r = cal.dayRange d

variable {cal : MarketCalendar} {start finish fromDate toDate t : ℤ} {closed : List (ℤ × ℤ)}
  {r : ℤ × ℤ}

theorem collects_of_eq {fuel : ℕ}
    (h : cal.dailyRanges toDate fuel fromDate (cal.holidayRanges fromDate toDate) = some closed) :
    Collects cal fromDate toDate closed := by
  obtain ⟨hascending, hholidays⟩ := foldl_addRange cal.holidayRange
    (cal.holidays.filter fun h => fromDate ≤ h && h ≤ toDate) List.Pairwise.nil
  obtain ⟨hall, hmem⟩ := dailyRanges_spec hascending h
  have hmem' : ∀ r, r ∈ closed ↔
      (∃ h ∈ cal.holidays, fromDate ≤ h ∧ h ≤ toDate ∧ r = cal.holidayRange h) ∨
        ∃ i : ℕ, fromDate + i * dayMillis < toDate ∧
          r = cal.dailyRange (fromDate + i * dayMillis) := by
    intro r
    rw [hmem, hholidays]
    simp only [List.not_mem_nil, false_or, List.mem_filter, Bool.and_eq_true, decide_eq_true_eq,
      and_assoc]
  have hday : ∀ i : ℕ, cal.dailyRange (fromDate + i * dayMillis) =
      cal.dayRange (cal.localDay fromDate + i) := by
    intro i
    rw [dailyRange_eq, localDay_add]
  refine ⟨hall, fun h hh hle hle' => ?_, fun d hd hd' => ?_, fun hlt => ?_, fun r hr => ?_⟩
  · exact (hmem' _).mpr (.inl ⟨h, hh, hle, hle', rfl⟩)
  · have heq : d = cal.localDay fromDate + (d - cal.localDay fromDate).toNat := by omega
    have hbefore : fromDate + (d - cal.localDay fromDate).toNat * dayMillis < toDate := by
      have hlocal := @localDay_add cal fromDate (d - cal.localDay fromDate).toNat
      by_contra hge
      have hmono := @localDay_mono cal _ _ (not_lt.mp hge)
      omega
    refine (hmem' _).mpr (.inr ⟨(d - cal.localDay fromDate).toNat, hbefore, ?_⟩)
    rw [hday, ← heq]
  · refine (hmem' _).mpr (.inr ⟨0, ?_, ?_⟩)
    · simpa using hlt
    · rw [hday, Nat.cast_zero, Int.add_zero]
  · rcases (hmem' r).mp hr with hholiday | ⟨i, hi, rfl⟩
    · exact .inl hholiday
    · have hfirst : fromDate < toDate := by
        simp only [dayMillis, hourMillis, secondMillis] at hi
        omega
      refine .inr ⟨hfirst, _, by omega, ?_, hday i⟩
      have hmono := @localDay_mono cal _ _ (Int.le_of_lt hi)
      rw [localDay_add] at hmono
      exact hmono

/-- The market is never closed within a working day. -/
def RoundTheClock (cal : MarketCalendar) : Prop := cal.openSeconds = 0 ∧ cal.closeSeconds = 86399

/-- The ranges of the holidays and of the days of a period begin after 1970, and those of the days are
not of days of 24 hours. -/
structure Regular (cal : MarketCalendar) (fromDate toDate : ℤ) : Prop where
  holidays_pos : ∀ h ∈ cal.holidays, fromDate ≤ h → h ≤ toDate → 0 < h
  day_pos : fromDate < toDate → 0 < (cal.dailyRange fromDate).1
  hours : fromDate < toDate → ¬ RoundTheClock cal

theorem day_bounds (t : ℤ) : cal.midnight (cal.localDay t) ≤ t ∧
    t < cal.midnight (cal.localDay t) + 86400000 := by
  rw [← midnight_succ]
  exact localDay_eq_iff.mp rfl

theorem collected_nonempty (h : Collects cal fromDate toDate closed)
    (hregular : Regular cal fromDate toDate) (hr : r ∈ closed) : r.1 ≤ r.2 := by
  have hopen := @openSeconds_nonneg cal
  have hclose := @closeSeconds_lt cal
  rcases h.cases r hr with ⟨h, hh, _, _, rfl⟩ | ⟨hlt, d, _, _, rfl⟩
  · rw [holidayRange_eq hh]
    have hwhole := cal.holidays_whole h hh
    have hday := @day_bounds cal h
    have hmid := @midnight_whole cal (cal.localDay h)
    simp only [midnight_succ, secondMillis] at hwhole ⊢
    omega
  · have hnot : ¬ (cal.openSeconds = 0 ∧ cal.closeSeconds = 86399) := hregular.hours hlt
    simp only [dayRange, midnight_succ]
    split <;> omega

theorem from_le_collected (h : Collects cal fromDate toDate closed)
    (hperiod : Period cal start finish fromDate toDate) (hr : r ∈ closed) : fromDate ≤ r.1 := by
  rcases h.cases r hr with ⟨h, hh, hle, _, rfl⟩ | ⟨_, d, hle, _, rfl⟩
  · rw [holidayRange_eq hh]
    exact hle
  · obtain ⟨hwork, _, hhours, _⟩ := isOpen_iff.mp hperiod.isOpen_from
    have hday := @day_bounds cal fromDate
    have hclose := @le_secondOfDay_iff cal fromDate (cal.closeSeconds + 1)
    have hopen := @openSeconds_nonneg cal
    have hlt := @openSeconds_lt cal
    simp only [dayRange]
    rcases Int.lt_or_eq_of_le hle with hlt | heq
    · have hmono := @midnight_mono cal _ _ (Int.add_one_le_of_lt hlt)
      rw [midnight_succ] at hmono
      split <;> omega
    · rw [← heq, if_pos hwork]
      omega

theorem collected_pos (h : Collects cal fromDate toDate closed)
    (hperiod : Period cal start finish fromDate toDate) (hregular : Regular cal fromDate toDate)
    (hr : r ∈ closed) : 0 < r.1 := by
  rcases h.cases r hr with ⟨h, hh, hle, hle', rfl⟩ | ⟨hlt, d, hle, _, rfl⟩
  · rw [holidayRange_eq hh]
    exact hregular.holidays_pos h hh hle hle'
  · have hpos := hregular.day_pos hlt
    have hwork := (isOpen_iff.mp hperiod.isOpen_from).1
    have hclose := @closeSeconds_lt cal
    rw [dailyRange_eq] at hpos
    simp only [dayRange, if_pos hwork] at hpos
    rcases Int.lt_or_eq_of_le hle with hlt | rfl
    · -- the range of a later day begins later
      have hmono := @midnight_mono cal _ _ (Int.add_one_le_of_lt hlt)
      rw [midnight_succ] at hmono
      have hopen := @openSeconds_nonneg cal
      have hbefore := @openSeconds_lt cal
      simp only [dayRange]
      split <;> omega
    · simpa only [dayRange, if_pos hwork] using hpos

/-- An open instant lies in the range of a holiday only, which began on the same day. -/
theorem holiday_of_within (h : Collects cal fromDate toDate closed) (hr : r ∈ closed)
    (hwithin : Within r t) (ht : cal.isOpen t = true) :
    r.1 ∈ cal.holidays ∧ cal.localDay r.1 = cal.localDay t := by
  obtain ⟨hwork, hle, hle', _⟩ := isOpen_iff.mp ht
  have hday := @day_bounds cal t
  have hfrom := @le_secondOfDay_iff cal t cal.openSeconds
  have hto := @le_secondOfDay_iff cal t (cal.closeSeconds + 1)
  have hclose := @closeSeconds_lt cal
  have hopen := @openSeconds_nonneg cal
  obtain ⟨hfirst, hlast⟩ := hwithin
  -- the range of a day ends before the market opens on the next day
  have hsame : ∀ d, cal.midnight d ≤ t → t ≤ cal.midnight (d + 1) + (cal.openSeconds - 1) * 1000 →
      d = cal.localDay t := by
    intro d hd hd'
    by_contra hne
    rcases Int.lt_or_gt_of_ne hne with hlt | hgt
    · have hmono := @midnight_mono cal _ _ (Int.add_one_le_of_lt hlt)
      omega
    · have hmono := @midnight_mono cal _ _ (Int.add_one_le_of_lt hgt)
      rw [midnight_succ] at hmono
      omega
  rcases h.cases r hr with ⟨h, hh, _, _, rfl⟩ | ⟨_, d, _, _, rfl⟩
  · rw [holidayRange_eq hh] at hfirst hlast ⊢
    have hdayh := @day_bounds cal h
    simp only at hfirst hlast ⊢
    exact ⟨hh, hsame _ (by omega) hlast⟩
  · simp only [dayRange] at hfirst hlast
    have hd : d = cal.localDay t := by
      refine hsame d ?_ hlast
      split at hfirst
      · have hnonneg := @openSeconds_lt cal
        omega
      · exact hfirst
    rw [hd, if_pos hwork] at hfirst
    omega

theorem mem_holidays_of_within (h : Collects cal fromDate toDate closed) (hr : r ∈ closed)
    (hwithin : Within r t) (ht : cal.isOpen t = true) : t ∈ cal.holidays := by
  obtain ⟨hholiday, hday⟩ := holiday_of_within h hr hwithin ht
  by_contra hnot
  have hne : r.1 ≠ t := by
    intro heq
    exact hnot (heq ▸ hholiday)
  have hlt : r.1 < t := lt_of_le_of_ne hwithin.1 hne
  have hclosed := isHoliday_of_before hholiday hlt hday hnot
  rw [(isOpen_iff.mp ht).2.2.2] at hclosed
  cases hclosed

/-- The second before a midnight and the seconds before it. -/
theorem le_before_midnight {d : ℤ} (hwhole : t % 1000 = 0) (hlt : t < cal.midnight d) :
    t ≤ cal.midnight d - 1000 := by
  have hmid := @midnight_whole cal d
  omega

theorem within_dayRange {d : ℤ} (hwhole : t % 1000 = 0)
    (hfirst : (if cal.workWeek (weekday d) then cal.midnight d + (cal.closeSeconds + 1) * 1000
      else cal.midnight d) ≤ t)
    (hlast : t < cal.midnight (d + 1) + cal.openSeconds * 1000) : Within (cal.dayRange d) t := by
  have hmid := @midnight_whole cal (d + 1)
  refine ⟨hfirst, ?_⟩
  simp only [dayRange]
  omega

theorem localDay_lt_to (hperiod : Period cal start finish fromDate toDate) (hle : t ≤ toDate)
    (hclosed : cal.workWeek (weekday (cal.localDay t)) = false ∨
      cal.closeSeconds < cal.secondOfDay t) : cal.localDay t < cal.localDay toDate := by
  obtain ⟨hwork, _, hto, _⟩ := isOpen_iff.mp hperiod.isOpen_to
  rcases Int.lt_or_eq_of_le (localDay_mono hle) with hlt | heq
  · exact hlt
  · have hsecond := @le_secondOfDay_iff cal t (cal.closeSeconds + 1)
    have hsecond' := @le_secondOfDay_iff cal toDate (cal.closeSeconds + 1)
    rw [heq] at hclosed hsecond
    rcases hclosed with hoff | hlate
    · rw [hwork] at hoff
      cases hoff
    · omega

/-- Every closed second of the period is covered. -/
theorem exists_within_of_closed (h : Collects cal fromDate toDate closed)
    (hperiod : Period cal start finish fromDate toDate) (hwhole : t % 1000 = 0) (hfrom : fromDate ≤ t)
    (hto : t ≤ toDate) (ht : cal.isOpen t = false) : ∃ r ∈ closed, Within r t := by
  have hday := @day_bounds cal t
  have hopen := @openSeconds_nonneg cal
  have hclose := @closeSeconds_lt cal
  have hfromDay := @localDay_mono cal _ _ hfrom
  by_cases hwork : cal.workWeek (weekday (cal.localDay t)) = true
  swap
  · have hoff := Bool.eq_false_iff.mpr hwork
    refine ⟨_, h.day _ hfromDay (localDay_lt_to hperiod hto (.inl hoff)), within_dayRange hwhole ?_ ?_⟩
    · rw [if_neg hwork]
      exact hday.1
    · rw [midnight_succ]
      omega
  by_cases hearly : cal.secondOfDay t < cal.openSeconds
  · -- covered with the day before
    have hsecond := @le_secondOfDay_iff cal t cal.openSeconds
    have hsecond' := @le_secondOfDay_iff cal fromDate cal.openSeconds
    have hopened := (isOpen_iff.mp hperiod.isOpen_from).2.1
    have hlt : cal.localDay fromDate < cal.localDay t := by
      rcases Int.lt_or_eq_of_le hfromDay with hlt | heq
      · exact hlt
      · rw [heq] at hsecond'
        omega
    have htoDay := @localDay_mono cal _ _ hto
    refine ⟨_, h.day (cal.localDay t - 1) (by omega) (by omega), within_dayRange hwhole ?_ ?_⟩
    · have hprevious := @midnight_succ cal (cal.localDay t - 1)
      rw [Int.sub_add_cancel] at hprevious
      split <;> omega
    · rw [Int.sub_add_cancel]
      omega
  by_cases hlate : cal.closeSeconds < cal.secondOfDay t
  · refine ⟨_, h.day _ hfromDay (localDay_lt_to hperiod hto (.inr hlate)), within_dayRange hwhole ?_ ?_⟩
    · rw [if_pos hwork]
      exact (le_secondOfDay_iff _).mp (Int.add_one_le_of_lt hlate)
    · rw [midnight_succ]
      omega
  · have hholiday : cal.isHoliday t = true := by
      by_contra hnot
      have hisOpen := isOpen_iff.mpr ⟨hwork, by omega, by omega, Bool.eq_false_iff.mpr hnot⟩
      rw [hisOpen] at ht
      cases ht
    obtain ⟨h', hh', hlt, hsame, hclosest⟩ := isHoliday_iff.mp hholiday
    -- a holiday that had begun before the period would have kept its first instant closed
    have hle : fromDate ≤ h' := by
      by_contra hbefore
      have hmono := @localDay_mono cal _ _ (Int.le_of_lt (not_le.mp hbefore))
      have hkept : cal.isHoliday fromDate = true := isHoliday_iff.mpr
        ⟨h', hh', not_le.mp hbefore, by omega,
          fun x hx hxle => hclosest x hx (Int.le_trans hxle hfrom)⟩
      rw [(isOpen_iff.mp hperiod.isOpen_from).2.2.2] at hkept
      cases hkept
    refine ⟨_, h.holiday h' hh' hle (by omega), ?_⟩
    have hend := @le_before_midnight cal t (cal.localDay t + 1) hwhole (by
      rw [midnight_succ]
      omega)
    rw [holidayRange_eq hh', hsame]
    refine ⟨Int.le_of_lt hlt, ?_⟩
    simp only
    omega

/-- The ranges that begin at the end of the period or after it are one. -/
theorem collected_after (h : Collects cal fromDate toDate closed)
    (hperiod : Period cal start finish fromDate toDate) (hregular : Regular cal fromDate toDate) :
    ∀ x ∈ closed, ∀ y ∈ closed, toDate ≤ x.1 → x.1 < y.1 → y.1 ≤ x.2 := by
  intro x hx y hy hle hlt
  obtain ⟨_, hopened, _, _⟩ := isOpen_iff.mp hperiod.isOpen_to
  have hto := @day_bounds cal toDate
  have hsecond := @le_secondOfDay_iff cal toDate cal.openSeconds
  have hopen := @openSeconds_nonneg cal
  have hclose := @closeSeconds_lt cal
  have hbefore := @openSeconds_lt cal
  rcases h.cases y hy with ⟨h', hh', _, hle', rfl⟩ | ⟨hdays, d, _, hd, rfl⟩
  · rw [holidayRange_eq hh'] at hlt
    simp only at hlt
    omega
  · have hnot : ¬ (cal.openSeconds = 0 ∧ cal.closeSeconds = 86399) := hregular.hours hdays
    -- a day whose range begins so late is the last one
    have hlast : ∀ d, d ≤ cal.localDay toDate → toDate ≤ (cal.dayRange d).1 → d = cal.localDay toDate := by
      intro d hd hstart
      by_contra hne
      have hmono := @midnight_mono cal (d + 1) (cal.localDay toDate) (by omega)
      rw [midnight_succ] at hmono
      simp only [dayRange] at hstart
      split at hstart <;> omega
    have hd' := hlast d hd (by omega)
    subst hd'
    rcases h.cases x hx with ⟨h', hh', _, hle', rfl⟩ | ⟨_, d, _, hd, rfl⟩
    · rw [holidayRange_eq hh'] at hle hlt ⊢
      simp only at hle hlt
      obtain rfl : h' = toDate := by omega
      simp only [dayRange, midnight_succ]
      split <;> omega
    · have hd' := hlast d hd hle
      subst hd'
      exact absurd hlt (lt_irrefl _)

/-! ### Agreement -/

/-- The ranges are not empty, ascending and disjoint, and they hold the closed seconds of the period
and no others. -/
structure Agrees (cal : MarketCalendar) (start finish : ℤ) (ranges : List (ℤ × ℤ)) : Prop where
  nonempty : ∀ r ∈ ranges, r.1 ≤ r.2
  apart : ranges.Pairwise fun r r' => r.2 < r'.1
  covers : ∀ t, t % secondMillis = 0 → start ≤ t → t ≤ finish →
    ((∃ r ∈ ranges, Within r t) ↔ cal.isOpen t = false)

/-- No holiday of the period begins while the market is open, except at its very end where no other
range holds it. -/
def HolidaysOutsideHours (cal : MarketCalendar) (start finish : ℤ) : Prop :=
  ∀ h ∈ cal.holidays, start ≤ h → h ≤ finish → cal.isOpen h = true →
    h = finish ∧ (start = finish ∨ ∀ h' ∈ cal.holidays, h' < h → cal.localDay h' ≠ cal.localDay h)

/-- A holiday at the very end of the period is held by a range that begins before it, if another
holiday has begun on its day. -/
theorem exists_range_before (h : Collects cal fromDate toDate closed)
    (hperiod : Period cal start finish fromDate toDate) {h₁ h₂ : ℤ} (hh₁ : h₁ ∈ cal.holidays)
    (hto : h₂ ≤ toDate) (hlt : h₁ < h₂)
    (hday : cal.localDay h₁ = cal.localDay h₂) (hfrom : fromDate < h₂) (hwhole : h₂ % 1000 = 0) :
    ∃ r ∈ closed, r.1 < h₂ ∧ h₂ ≤ r.2 := by
  have hnonneg := @openSeconds_nonneg cal
  have hcover : ∀ h' ∈ cal.holidays, fromDate ≤ h' → h' < h₂ → cal.localDay h' = cal.localDay h₂ →
      ∃ r ∈ closed, r.1 < h₂ ∧ h₂ ≤ r.2 := by
    intro h' hh' hle hlt' hsame
    refine ⟨_, h.holiday h' hh' hle (by omega), ?_⟩
    have hbounds := @day_bounds cal h₂
    have hend := @le_before_midnight cal h₂ (cal.localDay h₂ + 1) hwhole (by
      rw [midnight_succ]
      omega)
    rw [holidayRange_eq hh', hsame]
    simp only
    omega
  by_cases hle : fromDate ≤ h₁
  · exact hcover h₁ hh₁ hle hlt hday
  · -- then the period begins with a holiday
    have hmono := @localDay_mono cal _ _ (Int.le_of_lt (not_le.mp hle))
    have hmono' := @localDay_mono cal _ _ (Int.le_of_lt hfrom)
    have hmem : fromDate ∈ cal.holidays := by
      by_contra hnot
      have hkept := isHoliday_of_before hh₁ (not_le.mp hle) (by omega) hnot
      rw [(isOpen_iff.mp hperiod.isOpen_from).2.2.2] at hkept
      cases hkept
    exact hcover fromDate hmem (le_refl _) hfrom (by omega)

theorem consolidate_nil (toDate : ℤ) :
    consolidate [] toDate = if 0 < toDate then [(0, 0)] else [] := rfl

theorem agrees_of_nil (hperiod : Period cal start finish fromDate toDate)
    (h : Collects cal fromDate toDate []) (hle : start ≤ finish) :
    Agrees cal start finish (consolidate [] toDate) ↔ HolidaysOutsideHours cal start finish := by
  have heq : toDate ≤ fromDate := by
    by_contra hlt
    exact List.not_mem_nil (h.first (not_le.mp hlt))
  have hfrom := hperiod.from_le
  have hto := hperiod.le_to
  have hmem : ∀ m ∈ consolidate [] toDate, m = (0, 0) ∧ 0 < toDate := by
    intro m hm
    rw [consolidate_nil] at hm
    split at hm
    · next hpos => exact ⟨List.mem_singleton.mp hm, hpos⟩
    · cases hm
  refine iff_of_true ⟨?_, ?_, ?_⟩ fun x _ _ _ _ => ⟨by omega, .inl (by omega)⟩
  · intro m hm
    rw [(hmem m hm).1]
  · rw [consolidate_nil]
    split
    · exact List.pairwise_singleton _ _
    · exact List.Pairwise.nil
  · intro t _ ht ht'
    have hisOpen := hperiod.isOpen_from
    obtain rfl : t = fromDate := by omega
    rw [hisOpen]
    refine iff_of_false ?_ (by decide)
    rintro ⟨m, hm, hwithin⟩
    obtain ⟨rfl, hpos⟩ := hmem m hm
    have hle := hwithin.2
    simp only at hle
    omega

theorem agrees_of_collected (hperiod : Period cal start finish fromDate toDate)
    (h : Collects cal fromDate toDate closed) (hle : start ≤ finish)
    (hregular : Regular cal fromDate toDate) :
    Agrees cal start finish (consolidate closed toDate) ↔ HolidaysOutsideHours cal start finish := by
  cases closed with
  | nil => exact agrees_of_nil hperiod h hle
  | cons r rs =>
    have hascending : Ascending r rs := ⟨fun x hx => collected_nonempty h hregular hx, h.ascending⟩
    have hbegins : ∀ x ∈ r :: rs, fromDate ≤ x.1 := fun x hx => from_le_collected h hperiod hx
    have hfirst : 0 < r.1 := collected_pos h hperiod hregular List.mem_cons_self
    have hcovered : ∀ {t}, t ≤ toDate → ((∃ m ∈ consolidate (r :: rs) toDate, Within m t) ↔
        ∃ x ∈ r :: rs, x.1 < toDate ∧ Within x t) :=
      fun ht => covered_iff hascending hfirst (collected_after h hperiod hregular) ht
    have hfrom := hperiod.from_le
    have hto := hperiod.le_to
    constructor
    · intro hagrees x hx hstart hfinish hisOpen
      have hwhole := cal.holidays_whole x hx
      have hnot : ¬ ∃ y ∈ r :: rs, y.1 < toDate ∧ Within y x := by
        intro hcover
        have hclosed := (hagrees.covers x hwhole hstart hfinish).mp ((hcovered (by omega)).mpr hcover)
        rw [hisOpen] at hclosed
        cases hclosed
      have hown := h.holiday x hx (by omega) (by omega)
      have hnonempty := collected_nonempty h hregular hown
      rw [holidayRange_eq hx] at hown hnonempty
      have heq : x = toDate := by
        by_contra hne
        exact hnot ⟨_, hown, by simp only; omega, le_refl _, hnonempty⟩
      refine ⟨by omega, ?_⟩
      by_contra hother
      obtain ⟨hne, hearlier⟩ := not_or.mp hother
      push Not at hearlier
      obtain ⟨x', hx', hlt, hday⟩ := hearlier
      obtain ⟨y, hy, hyx, hyx'⟩ := exists_range_before h hperiod hx' (by omega) hlt hday
        (by omega) hwhole
      exact hnot ⟨y, hy, by omega, Int.le_of_lt hyx, hyx'⟩
    · intro houtside
      obtain ⟨front, last, hmerge, hresults⟩ := @consolidate_spec _ _ toDate hascending hfirst
      have hsublist : (consolidate (r :: rs) toDate).Sublist (merge r rs) := by
        rw [hresults, hmerge]
        split
        · exact List.Sublist.refl _
        · exact List.sublist_append_left _ _
      refine ⟨fun m hm => merge_nonempty hascending (hsublist.subset hm),
        (merge_apart hascending).sublist hsublist, fun t hwhole hstart hfinish => ?_⟩
      rw [hcovered (by omega)]
      constructor
      · intro ⟨x, hx, hlt, hwithin⟩
        by_contra hnot
        have hisOpen : cal.isOpen t = true := by simpa using hnot
        obtain ⟨hholiday, hday⟩ := holiday_of_within h hx hwithin hisOpen
        obtain ⟨rfl, halone⟩ :=
          houtside t (mem_holidays_of_within h hx hwithin hisOpen) hstart hfinish hisOpen
        have htoDate := hperiod.to_eq hisOpen
        rcases halone with rfl | hearlier
        · have hfromDate := hperiod.from_eq hisOpen
          have hxbegins := hbegins x hx
          omega
        · exact hearlier _ hholiday (by omega) hday
      · intro hclosed
        obtain ⟨x, hx, hwithin⟩ :=
          exists_within_of_closed h hperiod hwhole (by omega) (by omega) hclosed
        refine ⟨x, hx, ?_, hwithin⟩
        have hne : t ≠ toDate := by
          rintro rfl
          rw [hperiod.isOpen_to] at hclosed
          cases hclosed
        have hle := hwithin.1
        omega

/-- The search ends no later than at an open instant it would reach. -/
theorem openInstant_reaches {step u : ℤ} {k fuel : ℕ} (hk : cal.isOpen (t + k * step) = true)
    (h : cal.openInstant step fuel t = some u) : ∃ j : ℕ, j ≤ k ∧ u = t + j * step := by
  obtain ⟨_, j, hu, hbefore⟩ := openInstant_spec h
  refine ⟨j, ?_, hu⟩
  by_contra hlt
  rw [hbefore k (by omega)] at hk
  cases hk

theorem period_of_search {fuel : ℕ} (hfrom : cal.lastOpen fuel start = some fromDate) (hto : cal.nextOpen fuel finish = some toDate) :
    Period cal start finish fromDate toDate := by
  obtain ⟨hopen, k, rfl, hbefore⟩ := openInstant_spec hfrom
  obtain ⟨hopen', k', rfl, hbefore'⟩ := openInstant_spec hto
  refine ⟨hopen, hopen', ?_, ?_, ?_, ?_⟩
  · simp only [hourMillis, secondMillis]
    omega
  · simp only [hourMillis, secondMillis]
    omega
  · intro hstart
    have hzero : k = 0 := by
      by_contra hne
      have hclosed := hbefore 0 (Nat.pos_of_ne_zero hne)
      rw [Nat.cast_zero, Int.zero_mul, Int.add_zero, hstart] at hclosed
      cases hclosed
    rw [hzero, Nat.cast_zero, Int.zero_mul, Int.add_zero]
  · intro hfinish
    have hzero : k' = 0 := by
      by_contra hne
      have hclosed := hbefore' 0 (Nat.pos_of_ne_zero hne)
      rw [Nat.cast_zero, Int.zero_mul, Int.add_zero, hfinish] at hclosed
      cases hclosed
    rw [hzero, Nat.cast_zero, Int.zero_mul, Int.add_zero]

/-- The instants at which the searches end have regular ranges between them. -/
def RegularPeriod (cal : MarketCalendar) (start finish : ℤ) : Prop :=
  ∀ fuel fromDate toDate, cal.lastOpen fuel start = some fromDate →
    cal.nextOpen fuel finish = some toDate → Regular cal fromDate toDate

theorem outside_of_agrees {fuel : ℕ} {ranges : List (ℤ × ℤ)} (hle : start ≤ finish)
    (hregular : RegularPeriod cal start finish)
    (hranges : cal.getClosedHoursForPeriod fuel start finish = some ranges)
    (hagrees : Agrees cal start finish ranges) :
    cal.HourHit start ∧ cal.HourHit finish ∧ HolidaysOutsideHours cal start finish := by
  rw [getClosedHoursForPeriod, Option.bind_eq_some_iff] at hranges
  obtain ⟨fromDate, hfrom, hranges⟩ := hranges
  obtain ⟨toDate, hto, hranges⟩ := Option.bind_eq_some_iff.mp hranges
  obtain ⟨closed, hclosed, rfl⟩ := Option.map_eq_some_iff.mp hranges
  have hperiod := period_of_search hfrom hto
  have houtside := (agrees_of_collected hperiod (collects_of_eq hclosed) hle
    (hregular _ _ _ hfrom hto)).mp hagrees
  obtain ⟨hopen, k, rfl, _⟩ := openInstant_spec hfrom
  obtain ⟨hopen', k', rfl, _⟩ := openInstant_spec hto
  have hhit : cal.HourHit start := by
    apply @hourHit_of_isOpen _ _ (-k)
    rwa [Int.neg_mul_comm]
  exact ⟨hhit, hourHit_of_isOpen hopen', houtside⟩

/-- The two views agree exactly on these periods, as far as the ranges collected for them begin after
1970 and are not of days of 24 hours. -/
theorem closed_hours_agree_iff (cal : MarketCalendar) (hle : start ≤ finish)
    (hregular : RegularPeriod cal start finish) :
    (∃ fuel ranges, cal.getClosedHoursForPeriod fuel start finish = some ranges ∧
        Agrees cal start finish ranges) ↔
      cal.HourHit start ∧ cal.HourHit finish ∧ HolidaysOutsideHours cal start finish := by
  constructor
  · intro ⟨fuel, ranges, hranges, hagrees⟩
    exact outside_of_agrees hle hregular hranges hagrees
  · intro ⟨hhit, hhit', houtside⟩
    obtain ⟨k, hk⟩ := (exists_open_hours hhit).1
    obtain ⟨k', hk'⟩ := (exists_open_hours hhit').2
    obtain ⟨n, hn⟩ : ∃ n, n = k + k' + (finish - start).toNat := ⟨_, rfl⟩
    obtain ⟨fromDate, hfrom⟩ := openInstant_ends hk (show k < n + 1 by omega)
    obtain ⟨toDate, hto⟩ := openInstant_ends hk' (show k' < n + 1 by omega)
    have hdays : toDate - fromDate ≤ n * dayMillis := by
      obtain ⟨j, hj, rfl⟩ := openInstant_reaches hk hfrom
      obtain ⟨j', hj', rfl⟩ := openInstant_reaches hk' hto
      simp only [dayMillis, hourMillis, secondMillis]
      omega
    have hends : ∃ closed, cal.dailyRanges toDate (n + 1) fromDate
        (cal.holidayRanges fromDate toDate) = some closed := dailyRanges_ends hdays (by omega)
    obtain ⟨closed, hclosed⟩ := hends
    refine ⟨n + 1, _, ?_, (agrees_of_collected (period_of_search hfrom hto)
      (collects_of_eq hclosed) hle (hregular _ _ _ hfrom hto)).mpr houtside⟩
    rw [getClosedHoursForPeriod, lastOpen, hfrom, Option.bind_some, nextOpen, hto, Option.bind_some,
      hclosed, Option.map_some]

/-- The market of New York in the week of Thanksgiving 2015, closed from one o'clock on the day
after. -/
def thanksgivingWeek : MarketCalendar where
  offset := -5 * 3600
  openTime := 90000
  closeTime := 160000
  workWeek := fun weekday => weekday ≠ 0 && weekday ≠ 6
  holidays := [1448514000000, 1448647200000]
  openTime_isClock := ⟨by decide, by decide, by decide⟩
  closeTime_isClock := ⟨by decide, by decide, by decide⟩
  open_before_close := by decide
  works := ⟨1, rfl⟩
  holidays_ascending := by decide
  holidays_whole := by decide

theorem thanksgivingWeek_hours : ¬ RoundTheClock thanksgivingWeek :=
  fun h => absurd h.1 (by decide +kernel)

/-- The ranges of a period in that week begin after 1970. -/
theorem thanksgivingWeek_regular (hopen : thanksgivingWeek.isOpen start = true)
    (hday : 0 < (thanksgivingWeek.dailyRange start).1) :
    RegularPeriod thanksgivingWeek start finish := by
  intro fuel fromDate toDate hfrom _
  have hreached : thanksgivingWeek.isOpen (start + (0 : ℕ) * -hourMillis) = true := by
    rwa [Nat.cast_zero, Int.zero_mul, Int.add_zero]
  obtain ⟨j, hj, rfl⟩ := openInstant_reaches hreached hfrom
  rw [Nat.le_zero.mp hj, Nat.cast_zero, Int.zero_mul, Int.add_zero]
  refine ⟨fun h hh _ _ => ?_, fun _ => hday, fun _ => thanksgivingWeek_hours⟩
  rcases List.mem_pair.mp hh with rfl | rfl <;> decide

/-- The Friday from ten to noon, before the market closes early. -/
theorem closed_hours_agree_friday :
    (∃ fuel ranges, thanksgivingWeek.getClosedHoursForPeriod fuel 1448636400000 1448643600000 =
        some ranges ∧ Agrees thanksgivingWeek 1448636400000 1448643600000 ranges) ↔
      thanksgivingWeek.HourHit 1448636400000 ∧ thanksgivingWeek.HourHit 1448643600000 ∧
        HolidaysOutsideHours thanksgivingWeek 1448636400000 1448643600000 :=
  closed_hours_agree_iff thanksgivingWeek (by decide)
    (thanksgivingWeek_regular (by decide +kernel) (by decide +kernel))

/-- At one o'clock the market is open, and the range that begins there holds it. -/
theorem early_closing_disagrees :
    thanksgivingWeek.isOpen 1448647200000 = true ∧
      ¬ ∃ fuel ranges, thanksgivingWeek.getClosedHoursForPeriod fuel 1448643600000 1448650800000 =
        some ranges ∧ Agrees thanksgivingWeek 1448643600000 1448650800000 ranges := by
  have hisOpen : thanksgivingWeek.isOpen 1448647200000 = true := by decide +kernel
  refine ⟨hisOpen, fun ⟨fuel, ranges, hranges, hagrees⟩ => ?_⟩
  obtain ⟨_, _, houtside⟩ := outside_of_agrees (by decide)
    (thanksgivingWeek_regular (by decide +kernel) (by decide +kernel)) hranges hagrees
  have hend := (houtside 1448647200000 (by decide) (by decide) (by decide) hisOpen).1
  omega

end NumentaApps.Taurus.MarketCalendar
