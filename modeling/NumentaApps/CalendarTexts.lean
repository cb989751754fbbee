import NumentaApps.NumericLiteral
import NumentaApps.UtcCalendar
import Mathlib.Algebra.Order.BigOperators.Group.List
import Mathlib.Algebra.Order.Group.Int

/-!
# Texts of dates and times

Numbers are written with leading zeros, so that texts of one width are in the order of what they
say.
-/
namespace NumentaApps.UtcCalendar
open NumericLiteral (digitsValue_lt)

/-- The order of texts by their characters. -/
def before : List Char → List Char → Bool
  | _, [] => false
  | [], _ :: _ => true
  | c :: cs, d :: ds => c.toNat < d.toNat || (c.toNat = d.toNat && before cs ds)

def padded (width n : ℕ) : List Char := (Nat.toDigits 10 n).leftpad width '0'

/-- From January on. -/
def monthLengths (year : ℤ) : List ℤ :=
  [31, if isLeapYear year then 29 else 28, 31, 30, 31, 30, 31, 31, 30,
    if year = 1582 then 21 else 31, 30, 31]

/-- The month that a day falls in, and how many days of that month there are up to it. -/
def monthAndDay (month : ℕ) (day : ℤ) : List ℤ → ℕ × ℤ
  | [] => (month, day)
  | length :: lengths =>
    if day ≤ length then (month, day) else monthAndDay (month + 1) (day - length) lengths

/-- The days of October 1582 are numbered as if there were those that are left out after the fourth. -/
def dayOfMonth (year : ℤ) (month : ℕ) (day : ℤ) : ℤ :=
  if year = 1582 ∧ month = 10 ∧ 4 < day then day + 10 else day

/-- The month of a day, and its number in the month. -/
def dateOf (day : ℤ) : ℕ × ℤ :=
  let date := monthAndDay 1 (dayOfYear day) (monthLengths (yearOfDay day))
  (date.1, dayOfMonth (yearOfDay day) date.1 date.2)

/-- A year before the first one is written with the years of its own era. -/
def yearOfEra (year : ℤ) : ℕ := if 0 < year then year.toNat else (1 - year).toNat

/-- `yyyy-MM-dd` -/
def dateText (day : ℤ) : List Char :=
  padded 4 (yearOfEra (yearOfDay day)) ++
    '-' :: (padded 2 (dateOf day).1 ++ '-' :: padded 2 (dateOf day).2.toNat)

/-- `yyyy-MM-dd'T'HH:mm:ss` of the milliseconds since 1970. -/
def timestampText (time : ℤ) : List Char :=
  let second := time / 1000 % 86400
  dateText (time / 86400000) ++ 'T' :: (padded 2 (second / 3600).toNat ++ ':' ::
    (padded 2 (second % 3600 / 60).toNat ++ ':' :: padded 2 (second % 60).toNat))

variable {l l' r r' : List Char} {width a b : ℕ} {day day' : ℤ}

theorem before_cons_self (c : Char) : before (c :: l) (c :: l') = before l l' := by
  simp [before]

theorem toNat_inj {c d : Char} (h : c.toNat = d.toNat) : c = d := by
  rw [← Char.ofNat_toNat c, h, Char.ofNat_toNat]

theorem before_append (h : l.length = l'.length) :
    before (l ++ r) (l' ++ r') = true ↔ before l l' = true ∨ l = l' ∧ before r r' = true := by
  induction l generalizing l' with
  | nil =>
    obtain rfl := List.length_eq_zero_iff.mp h.symm
    simp [before]
  | cons c l ih =>
    cases l' with
    | nil => cases h
    | cons d l' =>
      have hrest := @ih l' (by simpa using h)
      simp only [List.cons_append, before, Bool.or_eq_true, Bool.and_eq_true, decide_eq_true_eq, hrest,
        List.cons.injEq]
      constructor
      · rintro (hlt | ⟨heq, hbefore | ⟨hl, hr⟩⟩)
        · exact .inl (.inl hlt)
        · exact .inl (.inr ⟨heq, hbefore⟩)
        · exact .inr ⟨⟨toNat_inj heq, hl⟩, hr⟩
      · rintro ((hlt | ⟨heq, hbefore⟩) | ⟨⟨rfl, hl⟩, hr⟩)
        · exact .inl hlt
        · exact .inr ⟨heq, .inl hbefore⟩
        · exact .inr ⟨rfl, .inr ⟨hl, hr⟩⟩

/-! ### Numbers with leading zeros -/

theorem padded_value (width n : ℕ) : Nat.ofDigitChars 10 (padded width n) 0 = n := by
  rw [padded, List.leftpad, Nat.ofDigitChars_append, Nat.ofDigitChars_replicate_zero, Nat.mul_zero,
    Nat.ofDigitChars_ten_toDigits]

theorem padded_inj (h : padded width a = padded width b) : a = b := by
  rw [← padded_value width a, h, padded_value]

theorem length_padded (hwidth : 0 < width) (h : a < 10 ^ width) : (padded width a).length = width := by
  have hlength := (Nat.length_toDigits_le_iff (by decide) hwidth).mpr h
  rw [padded, List.length_leftpad]
  omega

theorem isDigit_padded {c : Char} (h : c ∈ padded width a) : c.isDigit = true := by
  rcases List.mem_append.mp h with hzero | hdigit
  · rw [List.eq_of_mem_replicate hzero]
    rfl
  · exact Nat.isDigit_of_mem_toDigits (by decide) (by decide) hdigit

theorem digit_bounds {c : Char} (h : c.isDigit = true) : 48 ≤ c.toNat ∧ c.toNat ≤ 57 := by
  rw [Char.isDigit, Bool.and_eq_true, decide_eq_true_eq, decide_eq_true_eq] at h
  exact ⟨UInt32.le_iff_toNat_le.mp h.1, UInt32.le_iff_toNat_le.mp h.2⟩

/-- Texts of one length are in the order of their values. -/
theorem before_iff_value (h : l.length = l'.length) (hl : ∀ c ∈ l, c.isDigit = true)
    (hl' : ∀ c ∈ l', c.isDigit = true) :
    before l l' = true ↔ Nat.ofDigitChars 10 l 0 < Nat.ofDigitChars 10 l' 0 := by
  induction l generalizing l' with
  | nil =>
    obtain rfl := List.length_eq_zero_iff.mp h.symm
    simp [before]
  | cons c l ih =>
    cases l' with
    | nil => cases h
    | cons d l' =>
      obtain ⟨hc, hcs⟩ := List.forall_mem_cons.mp hl
      obtain ⟨hd, hds⟩ := List.forall_mem_cons.mp hl'
      have hlength : l.length = l'.length := by simpa using h
      have hrest := ih hlength hcs hds
      have hlt : Nat.ofDigitChars 10 l 0 < 10 ^ l.length := digitsValue_lt hcs
      have hlt' : Nat.ofDigitChars 10 l' 0 < 10 ^ l'.length := digitsValue_lt hds
      have hcbounds := digit_bounds hc
      have hdbounds := digit_bounds hd
      rw [← hlength] at hlt'
      rw [Nat.ofDigitChars_cons, Nat.ofDigitChars_eq_ofDigitChars_zero, Nat.ofDigitChars_cons,
        @Nat.ofDigitChars_eq_ofDigitChars_zero l', ← hlength]
      simp only [before, Bool.or_eq_true, Bool.and_eq_true, decide_eq_true_eq, hrest,
        Char.reduceToNat, Nat.mul_zero, Nat.zero_add]
      rcases Nat.lt_trichotomy c.toNat d.toNat with hcd | hcd | hcd
      · refine iff_of_true (.inl hcd) ?_
        have hmul : 10 ^ l.length * (c.toNat - 48 + 1) ≤ 10 ^ l.length * (d.toNat - 48) :=
          Nat.mul_le_mul_left _ (by omega)
        rw [Nat.mul_add, Nat.mul_one] at hmul
        omega
      · rw [hcd]
        omega
      · refine iff_of_false (by omega) ?_
        have hmul : 10 ^ l.length * (d.toNat - 48 + 1) ≤ 10 ^ l.length * (c.toNat - 48) :=
          Nat.mul_le_mul_left _ (by omega)
        rw [Nat.mul_add, Nat.mul_one] at hmul
        omega

theorem before_padded (hwidth : 0 < width) (ha : a < 10 ^ width) (hb : b < 10 ^ width) :
    before (padded width a) (padded width b) = true ↔ a < b := by
  have hlength : (padded width a).length = (padded width b).length := by
    rw [length_padded hwidth ha, length_padded hwidth hb]
  rw [before_iff_value hlength (fun _ => isDigit_padded) fun _ => isDigit_padded, padded_value,
    padded_value]

/-! ### Dates -/

theorem lt_of_yearOfDay_lt (h : yearOfDay day < yearOfDay day') : day < day' := by
  obtain ⟨_, hlast⟩ := yearOfDay_spec day
  obtain ⟨hfirst, _⟩ := yearOfDay_spec day'
  by_contra hge
  rcases Int.lt_or_eq_of_le (Int.add_one_le_of_lt h) with hlt | heq
  · have hyears := firstDay_add_le hlt
    omega
  · rw [heq] at hlast
    omega

theorem monthAndDay_spec {lengths : List ℤ} {month : ℕ} (hpos : 0 < day)
    (hlengths : ∀ length ∈ lengths, 0 < length ∧ length ≤ 31) (hday : day ≤ lengths.sum) :
    let date := monthAndDay month day lengths
    month ≤ date.1 ∧ date.1 < month + lengths.length ∧ 0 < date.2 ∧ date.2 ≤ 31 ∧
      day = (lengths.take (date.1 - month)).sum + date.2 ∧
      day ≤ (lengths.take (date.1 + 1 - month)).sum := by
  induction lengths generalizing month day with
  | nil =>
    rw [List.sum_nil] at hday
    omega
  | cons length lengths ih =>
    obtain ⟨hlength, hlengths⟩ := List.forall_mem_cons.mp hlengths
    rw [List.sum_cons] at hday
    simp only [monthAndDay, List.length_cons]
    split
    · next hle =>
      simp only [Nat.sub_self, List.take_zero, List.sum_nil, Nat.add_sub_cancel_left,
        List.take_succ_cons, List.sum_cons]
      omega
    · next hgt =>
      obtain ⟨hmonth, hmonth', hfirst, hlast, hsum, hbound⟩ :=
        @ih (day - length) (month + 1) (by omega) hlengths (by omega)
      refine ⟨by omega, by omega, hfirst, hlast, ?_, ?_⟩
      · have hsub : (monthAndDay (month + 1) (day - length) lengths).1 - month =
            (monthAndDay (month + 1) (day - length) lengths).1 - (month + 1) + 1 := by omega
        rw [hsub, List.take_succ_cons, List.sum_cons]
        omega
      · have hsub : (monthAndDay (month + 1) (day - length) lengths).1 + 1 - month =
            (monthAndDay (month + 1) (day - length) lengths).1 + 1 - (month + 1) + 1 := by omega
        rw [hsub, List.take_succ_cons, List.sum_cons]
        omega

theorem monthLengths_spec (year : ℤ) : (monthLengths year).sum = daysInYear year ∧
    (monthLengths year).length = 12 ∧ ∀ length ∈ monthLengths year, 0 < length ∧ length ≤ 31 := by
  rw [monthLengths, daysInYear]
  by_cases hcut : year = 1582
  · subst hcut
    exact ⟨rfl, rfl, by decide⟩
  · rw [if_neg hcut, if_neg hcut]
    split
    · exact ⟨rfl, rfl, by decide⟩
    · exact ⟨rfl, rfl, by decide⟩

theorem dayOfYear_bounds (day : ℤ) :
    0 < dayOfYear day ∧ dayOfYear day ≤ daysInYear (yearOfDay day) := by
  obtain ⟨hfirst, hlast⟩ := yearOfDay_spec day
  rw [firstDay_succ] at hlast
  rw [dayOfYear]
  omega

theorem monthAndDay_dayOfYear (day : ℤ) :
    let date := monthAndDay 1 (dayOfYear day) (monthLengths (yearOfDay day))
    1 ≤ date.1 ∧ date.1 < 13 ∧ 0 < date.2 ∧ date.2 ≤ 31 ∧
      dayOfYear day = ((monthLengths (yearOfDay day)).take (date.1 - 1)).sum + date.2 ∧
      dayOfYear day ≤ ((monthLengths (yearOfDay day)).take date.1).sum := by
  obtain ⟨hsum, hlength, hlengths⟩ := monthLengths_spec (yearOfDay day)
  obtain ⟨hfirst, hlast⟩ := dayOfYear_bounds day
  have hspec := @monthAndDay_spec (dayOfYear day) _ 1 hfirst hlengths (by omega)
  rwa [hlength] at hspec

/-- In a month the days are in the order of their numbers. -/
theorem dayOfMonth_lt_iff (year : ℤ) (month : ℕ) {a b : ℤ} :
    dayOfMonth year month a < dayOfMonth year month b ↔ a < b := by
  simp only [dayOfMonth]
  split_ifs <;> omega

theorem dayOfMonth_inj {year a b : ℤ} {month : ℕ}
    (h : dayOfMonth year month a = dayOfMonth year month b) : a = b := by
  have hlt := @dayOfMonth_lt_iff year month a b
  have hgt := @dayOfMonth_lt_iff year month b a
  omega

theorem dateOf_bounds (day : ℤ) :
    1 ≤ (dateOf day).1 ∧ (dateOf day).1 < 13 ∧ 0 < (dateOf day).2 ∧ (dateOf day).2 ≤ 31 := by
  obtain ⟨hmonth, hmonth', hpos, hdate, hday, hbound⟩ := monthAndDay_dayOfYear day
  simp only [dateOf, dayOfMonth]
  generalize monthAndDay 1 (dayOfYear day) (monthLengths (yearOfDay day)) = date at *
  split
  · next hcut =>
    obtain ⟨hyear, hoctober, -⟩ := hcut
    have hbefore : ((monthLengths 1582).take (10 - 1)).sum = 273 := rfl
    have hafter : ((monthLengths 1582).take 10).sum = 294 := rfl
    rw [hyear, hoctober] at hday hbound
    omega
  · exact ⟨hmonth, hmonth', hpos, hdate⟩

/-- After the change of the calendar. -/
theorem dateOf_of_lt (h : 1582 < yearOfDay day) :
    dateOf day = monthAndDay 1 (dayOfYear day) (monthLengths (yearOfDay day)) := by
  rw [dateOf, dayOfMonth, if_neg (by omega)]

/-- In our era a text is of one day only. -/
theorem dateText_inj (hera : 0 < yearOfDay day) (hera' : 0 < yearOfDay day') :
    dateText day = dateText day' ↔ day = day' := by
  refine ⟨fun h => ?_, congrArg dateText⟩
  obtain ⟨-, -, -, -, hday, -⟩ := monthAndDay_dayOfYear day
  obtain ⟨-, -, -, -, hday', -⟩ := monthAndDay_dayOfYear day'
  obtain ⟨_, hmonth, hpos, hdate⟩ := dateOf_bounds day
  obtain ⟨_, hmonth', hpos', hdate'⟩ := dateOf_bounds day'
  simp only [dateText] at h
  have hlengths : ∀ n < 100, (padded 2 n).length = 2 := fun n hn => length_padded (by decide) hn
  obtain ⟨hyear, hrest⟩ := List.append_inj' h (by
    simp only [List.length_cons, List.length_append]
    rw [hlengths _ (by omega), hlengths _ (by omega), hlengths _ (by omega), hlengths _ (by omega)])
  obtain ⟨hmonths, hdates⟩ := List.append_inj (List.cons.inj hrest).2 (by
    rw [hlengths _ (by omega), hlengths _ (by omega)])
  have hyear := padded_inj hyear
  rw [yearOfEra, yearOfEra, if_pos hera, if_pos hera'] at hyear
  have heq : yearOfDay day = yearOfDay day' := by omega
  have hmonths := padded_inj hmonths
  have hdates : (dateOf day).2 = (dateOf day').2 := by
    have htoNat := padded_inj (List.cons.inj hdates).2
    omega
  have hsub := dayOfYear_sub heq
  simp only [dateOf] at hmonths hdates
  rw [hmonths, heq] at hdates hday
  have hsame := dayOfMonth_inj hdates
  omega

example : dateText (-141428) = "1582-10-04".toList ∧ dateText (-141427) = "1582-10-15".toList := by
  decide +kernel

/-- The year of a day has four digits. -/
def FourDigits (day : ℤ) : Prop := 0 < yearOfDay day ∧ yearOfDay day < 10000

theorem monthsBefore_mono (year : ℤ) {m n : ℕ} (h : m ≤ n) :
    ((monthLengths year).take m).sum ≤ ((monthLengths year).take n).sum := by
  apply (List.take_sublist_take_left h).sum_le_sum
  intro length hlength
  exact Int.le_of_lt ((monthLengths_spec year).2.2 length (List.mem_of_mem_take hlength)).1

/-- Days are in the order of their dates. -/
theorem date_lt_iff :
    (yearOfDay day < yearOfDay day' ∨ yearOfDay day = yearOfDay day' ∧
      ((dateOf day).1 < (dateOf day').1 ∨ (dateOf day).1 = (dateOf day').1 ∧
        (dateOf day).2 < (dateOf day').2)) ↔ day < day' := by
  obtain ⟨hfirst, hlast⟩ := yearOfDay_spec day
  obtain ⟨hfirst', hlast'⟩ := yearOfDay_spec day'
  obtain ⟨hmonth, _, hpos, _, hday, hbound⟩ := monthAndDay_dayOfYear day
  obtain ⟨hmonth', _, hpos', _, hday', hbound'⟩ := monthAndDay_dayOfYear day'
  simp only [dateOf]
  rcases lt_trichotomy (yearOfDay day) (yearOfDay day') with hlt | heq | hgt
  · have hyears := lt_of_yearOfDay_lt hlt
    exact iff_of_true (.inl hlt) hyears
  · have hsub := dayOfYear_sub heq
    rw [heq] at hpos hmonth hday hbound ⊢
    rcases lt_trichotomy (monthAndDay 1 (dayOfYear day) (monthLengths (yearOfDay day'))).1
      (monthAndDay 1 (dayOfYear day') (monthLengths (yearOfDay day'))).1 with hm | hm | hm
    · have hmono := monthsBefore_mono (yearOfDay day') (Nat.le_sub_one_of_lt hm)
      omega
    · rw [hm, dayOfMonth_lt_iff]
      rw [hm] at hday
      omega
    · have hmono := monthsBefore_mono (yearOfDay day') (Nat.le_sub_one_of_lt hm)
      omega
  · have hyears := lt_of_yearOfDay_lt hgt
    exact iff_of_false (by omega) (by omega)

/-- Numbers of the same width and what follows them. -/
theorem before_padded_append (c : Char) (hwidth : 0 < width) (ha : a < 10 ^ width)
    (hb : b < 10 ^ width) :
    before (padded width a ++ c :: r) (padded width b ++ c :: r') = true ↔
      a < b ∨ a = b ∧ before r r' = true := by
  rw [before_append (by rw [length_padded hwidth ha, length_padded hwidth hb]),
    before_padded hwidth ha hb, before_cons_self]
  constructor
  · rintro (hlt | ⟨heq, hr⟩)
    · exact .inl hlt
    · exact .inr ⟨padded_inj heq, hr⟩
  · rintro (hlt | ⟨rfl, hr⟩)
    · exact .inl hlt
    · exact .inr ⟨rfl, hr⟩

theorem yearOfEra_eq (h : 0 < yearOfDay day) : (yearOfEra (yearOfDay day) : ℤ) = yearOfDay day := by
  rw [yearOfEra, if_pos h]
  exact Int.toNat_of_nonneg (Int.le_of_lt h)

theorem length_dateText (h : FourDigits day) : (dateText day).length = 10 := by
  obtain ⟨_, hmonth, hpos, hdate⟩ := dateOf_bounds day
  obtain ⟨hera, hyear⟩ := h
  have heq := yearOfEra_eq hera
  simp only [dateText, List.length_append, List.length_cons]
  rw [length_padded (by decide) (by omega), length_padded (by decide) (by omega),
    length_padded (by decide) (by omega)]

/-- Dates with years of four digits are in the order of their texts. -/
theorem before_dateText (h : FourDigits day) (h' : FourDigits day') :
    before (dateText day) (dateText day') = true ↔ day < day' := by
  obtain ⟨_, hmonth, hpos, hdate⟩ := dateOf_bounds day
  obtain ⟨_, hmonth', hpos', hdate'⟩ := dateOf_bounds day'
  obtain ⟨hera, hyear⟩ := h
  obtain ⟨hera', hyear'⟩ := h'
  have heq := yearOfEra_eq hera
  have heq' := yearOfEra_eq hera'
  have hlt := @date_lt_iff day day'
  simp only [dateText] at hlt ⊢
  rw [← hlt, before_padded_append '-' (by decide) (by omega) (by omega),
    before_padded_append '-' (by decide) (by omega) (by omega),
    before_padded (by decide) (by omega) (by omega)]
  omega

/-- Times of a day are in the order of their hours, minutes and seconds. -/
theorem timeOfDay_lt_iff {s t : ℤ} (hs : 0 ≤ s) (ht : 0 ≤ t) :
    ((s / 3600).toNat < (t / 3600).toNat ∨ (s / 3600).toNat = (t / 3600).toNat ∧
      ((s % 3600 / 60).toNat < (t % 3600 / 60).toNat ∨
        (s % 3600 / 60).toNat = (t % 3600 / 60).toNat ∧ (s % 60).toNat < (t % 60).toNat)) ↔
      s < t := by
  have hminutes : ((s % 3600 / 60).toNat < (t % 3600 / 60).toNat ∨
      (s % 3600 / 60).toNat = (t % 3600 / 60).toNat ∧ (s % 60).toNat < (t % 60).toNat) ↔
      s % 3600 < t % 3600 := by omega
  rw [hminutes]
  omega

/-- So are times, to the second. -/
theorem before_timestampText {s t : ℤ} (hs : FourDigits (s / 86400000))
    (ht : FourDigits (t / 86400000)) :
    before (timestampText s) (timestampText t) = true ↔ s / 1000 < t / 1000 := by
  have hinj : dateText (s / 86400000) = dateText (t / 86400000) ↔ s / 86400000 = t / 86400000 :=
    dateText_inj hs.1 ht.1
  simp only [timestampText]
  rw [before_append (by rw [length_dateText hs, length_dateText ht]), before_dateText hs ht,
    before_cons_self, before_padded_append ':' (by decide) (by omega) (by omega),
    before_padded_append ':' (by decide) (by omega) (by omega),
    before_padded (by decide) (by omega) (by omega), hinj,
    timeOfDay_lt_iff (Int.emod_nonneg _ (by decide)) (Int.emod_nonneg _ (by decide))]
  omega

end NumentaApps.UtcCalendar
