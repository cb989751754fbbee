import NumentaApps.DataUtils

/-!
# When a printed number is the canonical rendering

The rendering of a rounded number is its sign, its integer part in groups of three digits, and as
many fractional digits as are wanted. A value below one is printed with one zero more, which stands
for the integer part only if all digits written are fractional ones.
-/
namespace NumentaApps.MobileCore.DataUtils

/-- How the middle between two integers is rounded. -/
inductive TieRule where
  | halfUp
  | awayFromZero
  deriving DecidableEq

def TieRule.round : TieRule → ℚ → ℤ
  | .halfUp, x => ⌊x + 1 / 2⌋
  | .awayFromZero, x => if 0 ≤ x then ⌊x + 1 / 2⌋ else -⌊-x + 1 / 2⌋

/-- The integer part, from the units on, with a separator before every third digit but the first. -/
def integerPart (s : DecimalFormatSymbols) (n : ℕ) : List Char :=
  ((List.range (Nat.log 10 n + 1)).flatMap fun i =>
    (if 0 < i ∧ i % 3 = 0 then [s.groupingSeparator] else []) ++
      [digitChar (n / 10 ^ i % 10)]).reverse

def fractionalDigits (digits n : ℕ) : List Char :=
  ((List.range digits).map fun i => digitChar (n / 10 ^ i % 10)).reverse

/-- `n / 10 ^ digits` in decimal. -/
def numeral (s : DecimalFormatSymbols) (digits n : ℕ) : List Char :=
  integerPart s (n / 10 ^ digits) ++
    if 0 < digits then s.decimalSeparator :: fractionalDigits digits n else []

def canonical (s : DecimalFormatSymbols) (digits : ℕ) (n : ℤ) : List Char :=
  (if n < 0 then [s.minusSign] else []) ++ numeral s digits n.natAbs

/-- When a value is printed in its canonical rendering. -/
def Printed (ties : TieRule) (val : ℚ) (digits : ℕ) : Prop :=
  (1 ≤ val ∧ |val| * 10 ^ digits < 2 ^ 31 - 1 / 2) ∨
    (0 < digits ∧ |val| * 10 ^ digits < 10 ^ digits - 1 / 2 ∧
      (val < 0 → 1 / 2 ≤ |val| * 10 ^ digits ∧
        (ties = .halfUp → ∀ k : ℤ, |val| * 10 ^ digits ≠ k + 1 / 2)))

section Numerals
variable {s : DecimalFormatSymbols} {digits m n r : ℕ}

theorem emitted_fraction (h : n < digits) :
    emitted s digits r n = (List.range n).map fun i => digitChar (r / 10 ^ i % 10) := by
  induction n with
  | zero => rfl
  | succ n ih =>
    rw [emitted_succ, ih (by omega), emission, if_neg (by omega), if_neg (by omega), List.range_succ,
      List.map_append]
    rfl

theorem emitted_digits : emitted s digits r digits =
    ((List.range digits).map fun i => digitChar (r / 10 ^ i % 10)) ++
      if 0 < digits then [s.decimalSeparator] else [] := by
  cases digits with
  | zero => rfl
  | succ digits =>
    rw [emitted_succ, emitted_fraction (by omega), emission, if_neg (by omega), if_pos rfl,
      if_pos (by omega), List.range_succ, List.map_append]
    simp

theorem emitted_add : emitted s digits r (digits + m) =
    emitted s digits r digits ++ (List.range m).flatMap fun i =>
      (if 0 < i ∧ i % 3 = 0 then [s.groupingSeparator] else []) ++
        [digitChar (r / 10 ^ digits / 10 ^ i % 10)] := by
  rw [emitted, List.range_add, List.flatMap_append, List.flatMap_map]
  congr 1
  apply List.flatMap_congr
  intro i _
  have hgroup : digits + 3 ≤ digits + i ∧ (digits + i - digits) % 3 = 0 ↔ 0 < i ∧ i % 3 = 0 := by
    omega
  have hlast : ¬ digits + i + 1 = digits := by omega
  rw [emission, if_neg hlast, List.append_nil, Nat.div_div_eq_div_mul, ← pow_add]
  simp only [hgroup]

theorem numeral_eq : numeral s digits r =
    (emitted s digits r (digits + (Nat.log 10 (r / 10 ^ digits) + 1))).reverse := by
  rw [emitted_add, emitted_digits, List.reverse_append, List.reverse_append, numeral, integerPart,
    fractionalDigits]
  congr 1
  rcases Nat.eq_zero_or_pos digits with hzero | hpos
  · subst hzero
    rfl
  · rw [if_pos hpos, if_pos hpos]
    rfl

/-- One digit is written at least before the decimal separator in a numeral. -/
theorem numeral_turns : digits + (Nat.log 10 (r / 10 ^ digits) + 1) =
    max (digits + 1) (Nat.log 10 r + 1) := by
  rw [Nat.log_div_base_pow]
  omega

theorem emitted_numeral (h : digits = 0 ∨ 10 ^ digits ≤ r) :
    (emitted s digits r (turns digits r)).reverse = numeral s digits r := by
  have hturns : turns digits r = max (digits + 1) (Nat.log 10 r + 1) := by
    rw [turns]
    rcases h with hzero | hle
    · omega
    · have hlog : digits ≤ Nat.log 10 r := Nat.le_log_of_pow_le (by omega) hle
      omega
  rw [numeral_eq, numeral_turns, hturns]

/-- If all digits written are fractional ones, a zero before them makes the numeral. -/
theorem zero_emitted_numeral (hdigits : 0 < digits) (h : r < 10 ^ digits) :
    '0' :: (emitted s digits r (turns digits r)).reverse = numeral s digits r := by
  have hlog : Nat.log 10 r < digits := Nat.log_lt_of_lt_pow' (by omega) h
  have hturns : turns digits r = digits := by
    rw [turns]
    omega
  have hzero : r / 10 ^ digits = 0 := Nat.div_eq_of_lt h
  rw [numeral_eq, hturns, hzero, Nat.log_zero_right, emitted_add, hzero, List.reverse_append]
  rfl

theorem numeral_getLast (r : ℕ) : (numeral s digits r).getLast? = some (digitChar (r % 10)) := by
  have hfirst : ∀ n, (emitted s digits r (n + 1)).head? = some (digitChar (r % 10)) := by
    intro n
    induction n with
    | zero =>
      rw [emitted_succ, emission, if_neg (by omega), pow_zero, Nat.div_one]
      rfl
    | succ n ih => rw [emitted_succ, List.head?_append, ih, Option.some_or]
  rw [numeral_eq, List.getLast?_reverse, ← Nat.add_assoc]
  exact hfirst _

theorem digitChar_inj (hm : m < 10) (hn : n < 10) (h : digitChar m = digitChar n) : m = n := by
  have hall : ∀ m < 10, ∀ n < 10, digitChar m = digitChar n → m = n := by decide
  exact hall m hm n hn h

theorem getLast_numeral_ne (h : m % 10 ≠ n % 10) (before after : List Char) :
    before ++ numeral s digits m ≠ after ++ numeral s digits n := by
  intro heq
  have hlast := congrArg List.getLast? heq
  rw [List.getLast?_append, List.getLast?_append, numeral_getLast, numeral_getLast, Option.some_or,
    Option.some_or] at hlast
  exact h (digitChar_inj (Nat.mod_lt _ (by omega)) (Nat.mod_lt _ (by omega)) (Option.some.inj hlast))

/-- From ten to the digits on, a numeral begins with another digit than zero. -/
theorem numeral_head_ne (h : 10 ^ digits ≤ n) : (numeral s digits n).head? ≠ some '0' := by
  have hpos : n / 10 ^ digits ≠ 0 := (Nat.div_pos h (by positivity)).ne'
  have hle := Nat.pow_log_le_self 10 hpos
  have hlt := Nat.lt_pow_succ_log_self (b := 10) (by omega) (n / 10 ^ digits)
  have hone : 0 < n / 10 ^ (digits + Nat.log 10 (n / 10 ^ digits)) := by
    rw [pow_add, ← Nat.div_div_eq_div_mul]
    exact Nat.div_pos hle (by positivity)
  have hten : n / 10 ^ (digits + Nat.log 10 (n / 10 ^ digits)) < 10 := by
    rw [pow_add, ← Nat.div_div_eq_div_mul]
    rw [pow_succ] at hlt
    exact Nat.div_lt_of_lt_mul hlt
  rw [numeral_eq, List.head?_reverse, ← Nat.add_assoc, emitted_succ, emission,
    if_neg (show ¬ digits + Nat.log 10 (n / 10 ^ digits) + 1 = digits by omega), List.append_nil,
    ← List.append_assoc, List.getLast?_concat, Nat.mod_eq_of_lt hten]
  intro hzero
  have hdigit := digitChar_inj hten (by omega) (Option.some.inj hzero)
  omega

theorem emitted_length_eq : (emitted s digits m n).length = (emitted s digits r n).length := by
  induction n with
  | zero => rfl
  | succ n ih =>
    rw [emitted_succ, emitted_succ, List.length_append, List.length_append, ih, emission, emission]
    simp only [List.length_append, List.length_singleton]

theorem emitted_inj (h : emitted s digits m n = emitted s digits r n) :
    m % 10 ^ n = r % 10 ^ n := by
  induction n with
  | zero => rw [pow_zero, Nat.mod_one, Nat.mod_one]
  | succ n ih =>
    rw [emitted_succ, emitted_succ] at h
    obtain ⟨hfirst, hlast⟩ := List.append_inj h emitted_length_eq
    have hdigit : digitChar (m / 10 ^ n % 10) = digitChar (r / 10 ^ n % 10) := by
      simpa [emission] using hlast
    have hdigit := digitChar_inj (Nat.mod_lt _ (by omega)) (Nat.mod_lt _ (by omega)) hdigit
    rw [Nat.mod_pow_succ, Nat.mod_pow_succ, ih hfirst, hdigit]

theorem emitted_length_lt (h : m < n) :
    (emitted s digits r m).length < (emitted s digits r n).length := by
  have hle : (emitted s digits r (m + 1)).length ≤ (emitted s digits r n).length :=
    emitted_length_mono h
  rw [emitted_succ, List.length_append, emission, List.length_append, List.length_append,
    List.length_singleton] at hle
  omega

theorem numeral_inj (h : numeral s digits m = numeral s digits n) : m = n := by
  rw [numeral_eq, numeral_eq, List.reverse_inj, numeral_turns, numeral_turns] at h
  have hlength := congrArg List.length h
  have hturns : max (digits + 1) (Nat.log 10 m + 1) = max (digits + 1) (Nat.log 10 n + 1) := by
    rw [@emitted_length_eq s digits n _ m] at hlength
    rcases lt_trichotomy (max (digits + 1) (Nat.log 10 m + 1))
      (max (digits + 1) (Nat.log 10 n + 1)) with hlt | heq | hgt
    · exact absurd hlength (emitted_length_lt hlt).ne
    · exact heq
    · exact absurd hlength (emitted_length_lt hgt).ne'
  have hlt : ∀ k, k < 10 ^ max (digits + 1) (Nat.log 10 k + 1) := fun k =>
    lt_of_lt_of_le (Nat.lt_pow_succ_log_self (by omega) k)
      (Nat.pow_le_pow_right (by omega) (le_max_right _ _))
  rw [hturns] at h
  have hmod := emitted_inj h
  have hm := hlt m
  rw [hturns] at hm
  rw [Nat.mod_eq_of_lt hm, Nat.mod_eq_of_lt (hlt n)] at hmod
  exact hmod

theorem numeral_length_mono (h : m ≤ n) :
    (numeral s digits m).length ≤ (numeral s digits n).length := by
  have hlog : Nat.log 10 m ≤ Nat.log 10 n := Nat.log_mono_right h
  rw [numeral_eq, numeral_eq, numeral_turns, numeral_turns, List.length_reverse, List.length_reverse,
    @emitted_length_eq s digits m _ n]
  apply emitted_length_mono
  omega

end Numerals

section Rounding
variable {val x : ℚ} {digits : ℕ} {ties : TieRule}

theorem magnitude_of_lt (h : |val| * 10 ^ digits < 2 ^ 31 - 1 / 2) :
    (magnitude val digits : ℤ) = ⌊|val| * 10 ^ digits + 1 / 2⌋ := by
  have hnonneg : 0 ≤ ⌊|val| * 10 ^ digits + 1 / 2⌋ := Int.floor_nonneg.mpr (by positivity)
  have hlt : ⌊|val| * 10 ^ digits + 1 / 2⌋ < 2 ^ 31 := by
    apply Int.floor_lt.mpr
    push_cast
    linarith
  rw [magnitude, mathRound]
  omega

theorem le_floor_of_ge (h : 2 ^ 31 - 1 / 2 ≤ x) : 2 ^ 31 ≤ ⌊x + 1 / 2⌋ := by
  apply Int.le_floor.mpr
  push_cast
  linarith

theorem magnitude_of_ge (h : 2 ^ 31 - 1 / 2 ≤ |val| * 10 ^ digits) :
    magnitude val digits = 2 ^ 31 - 1 := by
  have hle := le_floor_of_ge h
  rw [magnitude, mathRound]
  omega

theorem round_of_nonneg (hx : 0 ≤ x) : ties.round x = ⌊x + 1 / 2⌋ := by
  cases ties with
  | halfUp => rfl
  | awayFromZero => exact if_pos hx

/-- Away from the middles a negative number is rounded as its magnitude is. -/
theorem round_neg (hx : 0 < x) (htie : ties = .halfUp → ∀ k : ℤ, x ≠ k + 1 / 2) :
    ties.round (-x) = -⌊x + 1 / 2⌋ := by
  cases ties with
  | awayFromZero =>
    rw [TieRule.round, if_neg (by linarith), neg_neg]
  | halfUp =>
    have hle := Int.floor_le (x + 1 / 2)
    have hlt := Int.lt_floor_add_one (x + 1 / 2)
    have hne := htie rfl (⌊x + 1 / 2⌋ - 1)
    push_cast at hne
    rw [TieRule.round]
    apply Int.floor_eq_iff.mpr
    push_cast
    refine ⟨by linarith, ?_⟩
    rcases lt_or_eq_of_le hle with hlt' | heq
    · linarith
    · exact absurd (by linarith) hne

theorem round_neg_tie {k : ℤ} (h : x = k + 1 / 2) :
    TieRule.halfUp.round (-x) = -k ∧ ⌊x + 1 / 2⌋ = k + 1 := by
  subst h
  constructor
  · apply Int.floor_eq_iff.mpr
    push_cast
    constructor <;> linarith
  · apply Int.floor_eq_iff.mpr
    push_cast
    constructor <;> linarith

theorem natAbs_round_neg_le (hx : 0 < x) : (ties.round (-x)).natAbs ≤ ⌊x + 1 / 2⌋.natAbs := by
  by_cases htie : ties = .halfUp → ∀ k : ℤ, x ≠ k + 1 / 2
  · rw [round_neg hx htie, Int.natAbs_neg]
  · push Not at htie
    obtain ⟨hties, k, hk⟩ := htie
    obtain ⟨hround, hfloor⟩ := round_neg_tie hk
    have hnonneg : 0 ≤ k + 1 := by
      rw [← hfloor]
      exact Int.floor_nonneg.mpr (by linarith)
    have hk0 : -1 < k := by
      have hcast : ((-1 : ℤ) : ℚ) < k := by
        push_cast
        linarith
      exact Int.cast_lt.mp hcast
    rw [hties, hround, hfloor]
    omega

theorem round_neg_nonpos (hx : 0 < x) : ties.round (-x) ≤ 0 := by
  have hfloor : ⌊-x + 1 / 2⌋ < 1 := Int.floor_lt.mpr (by push_cast; linarith)
  cases ties with
  | halfUp => exact Int.lt_add_one_iff.mp hfloor
  | awayFromZero =>
    rw [TieRule.round, if_neg (by linarith), neg_neg]
    exact neg_nonpos.mpr (Int.floor_nonneg.mpr (by linarith))

end Rounding

section Rendering
variable {s : DecimalFormatSymbols} {ties : TieRule} {val : ℚ} {digits : ℕ}

theorem pow_digits_le (hdigits : digits < POW10.length) : 10 ^ digits ≤ 2 ^ 31 - 1 := by
  have hle : digits ≤ 9 := Nat.le_of_lt_succ hdigits
  exact le_trans (Nat.pow_le_pow_right (by omega) hle) (by omega)

theorem pow_le_magnitude (hdigits : digits < POW10.length)
    (h : 10 ^ digits - 1 / 2 ≤ |val| * 10 ^ digits) : 10 ^ digits ≤ magnitude val digits := by
  rcases lt_or_ge (|val| * 10 ^ digits) (2 ^ 31 - 1 / 2) with hlt | hge
  · have hle : ((10 ^ digits : ℕ) : ℤ) ≤ magnitude val digits := by
      rw [magnitude_of_lt hlt]
      apply Int.le_floor.mpr
      push_cast
      linarith
    exact_mod_cast hle
  · rw [magnitude_of_ge hge]
    exact pow_digits_le hdigits

theorem pow_le_of_one_le (h : 1 ≤ val) : 10 ^ digits ≤ |val| * 10 ^ digits := by
  rw [abs_of_pos (by linarith)]
  exact le_mul_of_one_le_left (by positivity) h

theorem formatted_of_one_le (h : 1 ≤ val) (hdigits : digits < POW10.length) :
    formatted s val digits = numeral s digits (magnitude val digits) := by
  have hle := @pow_le_of_one_le val digits h
  rw [formatted, if_neg (by linarith), if_neg (by linarith),
    emitted_numeral (.inr (pow_le_magnitude hdigits (by linarith)))]
  rfl

/-- The zero that is written before a value below one is one too many after a carry, and when no
fractional digits are wanted. -/
theorem formatted_of_carry (h : val < 1) (hdigits : digits < POW10.length)
    (hcarry : digits = 0 ∨ 10 ^ digits - 1 / 2 ≤ |val| * 10 ^ digits) :
    formatted s val digits =
      (if val < 0 then [s.minusSign] else []) ++ '0' :: numeral s digits (magnitude val digits) := by
  have hnumeral : digits = 0 ∨ 10 ^ digits ≤ magnitude val digits :=
    hcarry.imp_right (pow_le_magnitude hdigits)
  rw [formatted, if_pos h, emitted_numeral hnumeral, List.append_assoc]
  rfl

theorem formatted_of_fraction (hpos : 0 < digits)
    (hlt : |val| * 10 ^ digits < 10 ^ digits - 1 / 2) (hdigits : digits < POW10.length) :
    formatted s val digits =
        (if val < 0 then [s.minusSign] else []) ++ numeral s digits (magnitude val digits) ∧
      (magnitude val digits : ℤ) = ⌊|val| * 10 ^ digits + 1 / 2⌋ := by
  have hval : val < 1 := by
    by_contra hge
    have hle := @pow_le_of_one_le val digits (not_lt.mp hge)
    linarith
  have hpow : (10 : ℚ) ^ digits ≤ 2 ^ 31 - 1 := by
    have hle : ((10 ^ digits : ℕ) : ℚ) ≤ ((2 ^ 31 - 1 : ℕ) : ℚ) :=
      Nat.cast_le.mpr (pow_digits_le hdigits)
    push_cast at hle
    linarith
  have hmagnitude := @magnitude_of_lt val digits (by linarith)
  have hfraction : magnitude val digits < 10 ^ digits := by
    have hfloor : (magnitude val digits : ℤ) < ((10 ^ digits : ℕ) : ℤ) := by
      rw [hmagnitude]
      apply Int.floor_lt.mpr
      push_cast
      linarith
    exact_mod_cast hfloor
  refine ⟨?_, hmagnitude⟩
  rw [formatted, if_pos hval, List.append_assoc, List.singleton_append,
    zero_emitted_numeral hpos hfraction]

theorem canonical_natCast (n : ℕ) : canonical s digits n = numeral s digits n := by
  rw [canonical, if_neg (by omega), Int.natAbs_natCast]
  rfl

theorem canonical_neg {n : ℕ} (hn : 0 < n) :
    canonical s digits (-n) = [s.minusSign] ++ numeral s digits n := by
  rw [canonical, if_pos (by omega), Int.natAbs_neg, Int.natAbs_natCast]

theorem abs_mul_of_pos (h : 0 < val) : val * 10 ^ digits = |val| * 10 ^ digits := by
  rw [abs_of_pos h]

theorem abs_mul_of_neg (h : val < 0) : val * 10 ^ digits = -(|val| * 10 ^ digits) := by
  rw [abs_of_neg h]
  ring

theorem abs_mul_pos (h : val ≠ 0) : 0 < |val| * 10 ^ digits := by
  have habs : 0 < |val| := abs_pos.mpr h
  positivity

theorem rendered_of_one_le (h : 1 ≤ val) (hdigits : digits < POW10.length) :
    formatted s val digits = canonical s digits (ties.round (val * 10 ^ digits)) ↔
      |val| * 10 ^ digits < 2 ^ 31 - 1 / 2 := by
  have hpos : 0 < |val| * 10 ^ digits := abs_mul_pos (by linarith)
  rw [formatted_of_one_le h hdigits, abs_mul_of_pos (by linarith), round_of_nonneg hpos.le]
  rcases lt_or_ge (|val| * 10 ^ digits) (2 ^ 31 - 1 / 2) with hlt | hge
  · rw [← magnitude_of_lt hlt, canonical_natCast]
    exact iff_of_true rfl hlt
  · refine iff_of_false ?_ (not_lt.mpr hge)
    have hle := le_floor_of_ge hge
    have hfloor : ⌊|val| * 10 ^ digits + 1 / 2⌋ = (⌊|val| * 10 ^ digits + 1 / 2⌋.toNat : ℤ) := by omega
    rw [hfloor, canonical_natCast, magnitude_of_ge hge]
    intro heq
    have hcut := numeral_inj heq
    omega

theorem rendered_of_fraction (hval : val ≠ 0) (hpos : 0 < digits)
    (hlt : |val| * 10 ^ digits < 10 ^ digits - 1 / 2) (hdigits : digits < POW10.length) :
    formatted s val digits = canonical s digits (ties.round (val * 10 ^ digits)) ↔
      (val < 0 → 1 / 2 ≤ |val| * 10 ^ digits ∧
        (ties = .halfUp → ∀ k : ℤ, |val| * 10 ^ digits ≠ k + 1 / 2)) := by
  obtain ⟨hformatted, hmagnitude⟩ := @formatted_of_fraction s val digits hpos hlt hdigits
  have hx : 0 < |val| * 10 ^ digits := abs_mul_pos hval
  rw [hformatted]
  rcases lt_or_gt_of_ne hval with hneg | hval
  swap
  · rw [if_neg (by linarith), abs_mul_of_pos hval, round_of_nonneg hx.le, ← hmagnitude,
      canonical_natCast]
    exact iff_of_true rfl fun hneg => absurd hneg (by linarith)
  rw [if_pos hneg, abs_mul_of_neg hneg]
  by_cases htie : ties = .halfUp → ∀ k : ℤ, |val| * 10 ^ digits ≠ k + 1 / 2
  · rw [round_neg hx htie, ← hmagnitude]
    rcases Nat.eq_zero_or_pos (magnitude val digits) with hzero | hmag
    · -- a minus sign is written before a zero
      refine iff_of_false ?_ fun h => ?_
      · rw [hzero, Nat.cast_zero, neg_zero, canonical, if_neg (lt_irrefl 0), Int.natAbs_zero]
        intro heq
        have hlength := congrArg List.length heq
        rw [List.length_append, List.length_singleton, List.nil_append] at hlength
        omega
      · have hone : (1 : ℤ) ≤ magnitude val digits := by
          rw [hmagnitude]
          apply Int.le_floor.mpr
          push_cast
          linarith [(h hneg).1]
        omega
    · rw [canonical_neg hmag]
      refine iff_of_true rfl fun _ => ⟨?_, htie⟩
      have hone : (1 : ℤ) ≤ ⌊|val| * 10 ^ digits + 1 / 2⌋ := by
        rw [← hmagnitude]
        omega
      have hle := Int.le_floor.mp hone
      push_cast at hle
      linarith
  · refine iff_of_false ?_ fun h => htie (h hneg).2
    push Not at htie
    obtain ⟨hties, k, hk⟩ := htie
    obtain ⟨hround, hfloor⟩ := round_neg_tie hk
    rw [hties, hround, canonical]
    apply getLast_numeral_ne
    have hk0 : -1 < k := by
      have hcast : ((-1 : ℤ) : ℚ) < k := by
        push_cast
        linarith
      exact Int.cast_lt.mp hcast
    omega

theorem not_rendered_of_carry (hval : val ≠ 0) (h : val < 1) (hdigits : digits < POW10.length)
    (hcarry : digits = 0 ∨ 10 ^ digits - 1 / 2 ≤ |val| * 10 ^ digits) :
    formatted s val digits ≠ canonical s digits (ties.round (val * 10 ^ digits)) := by
  have hx : 0 < |val| * 10 ^ digits := abs_mul_pos hval
  rw [formatted_of_carry h hdigits hcarry, canonical]
  -- no more digits are wanted, unless the magnitude was cut off
  have hround : (ties.round (val * 10 ^ digits)).natAbs ≤ ⌊|val| * 10 ^ digits + 1 / 2⌋.natAbs := by
    rcases lt_or_gt_of_ne hval with hneg | hpos
    · rw [abs_mul_of_neg hneg]
      exact natAbs_round_neg_le hx
    · rw [abs_mul_of_pos hpos, round_of_nonneg hx.le]
  have hsign : (if ties.round (val * 10 ^ digits) < 0 then [s.minusSign] else []).length ≤
      (if val < 0 then [s.minusSign] else []).length := by
    by_cases hneg : val < 0
    · rw [if_pos hneg]
      split <;> simp
    · rw [abs_mul_of_pos (lt_of_le_of_ne (not_lt.mp hneg) (Ne.symm hval)), round_of_nonneg hx.le,
        if_neg (not_lt.mpr (Int.floor_nonneg.mpr (by linarith)))]
      exact Nat.zero_le _
  have hlength : (ties.round (val * 10 ^ digits)).natAbs ≤ magnitude val digits →
      (if val < 0 then [s.minusSign] else []) ++ '0' :: numeral s digits (magnitude val digits) ≠
        (if ties.round (val * 10 ^ digits) < 0 then [s.minusSign] else []) ++
          numeral s digits (ties.round (val * 10 ^ digits)).natAbs := by
    intro hle heq
    have hmono := @numeral_length_mono s digits _ _ hle
    have hlengths := congrArg List.length heq
    rw [List.length_append, List.length_append, List.length_cons] at hlengths
    omega
  rcases lt_or_ge (|val| * 10 ^ digits) (2 ^ 31 - 1 / 2) with hlt | hge
  · have hmagnitude := magnitude_of_lt hlt
    exact hlength (by omega)
  · by_cases hle : (ties.round (val * 10 ^ digits)).natAbs ≤ magnitude val digits
    · exact hlength hle
    · -- after the cut the numeral that is wanted does not begin with a zero
      have hpow := @pow_digits_le digits hdigits
      rw [magnitude_of_ge hge] at hle
      have hneg : val < 0 := by
        by_contra hnonneg
        have hcast : ((10 ^ digits : ℕ) : ℚ) ≤ ((2 ^ 31 - 1 : ℕ) : ℚ) := Nat.cast_le.mpr hpow
        push_cast at hcast
        have hsmall : |val| * 10 ^ digits ≤ 10 ^ digits := by
          rw [abs_of_nonneg (not_lt.mp hnonneg)]
          exact mul_le_of_le_one_left (by positivity) h.le
        linarith
      have hround0 : ties.round (val * 10 ^ digits) < 0 := by
        have hle0 : ties.round (val * 10 ^ digits) ≤ 0 := by
          rw [abs_mul_of_neg hneg]
          exact round_neg_nonpos hx
        omega
      rw [if_pos hneg, if_pos hround0]
      intro heq
      have htail := List.append_cancel_left heq
      have hhead := @numeral_head_ne s digits (ties.round (val * 10 ^ digits)).natAbs (by omega)
      rw [← htail] at hhead
      exact hhead rfl

/-- Exactly these values are printed in their canonical rendering. -/
theorem formatFloat_renders_iff (s : DecimalFormatSymbols) (ties : TieRule) (out : List Char)
    (hval : val ≠ 0) (hdigits : digits < POW10.length)
    (hroom : (formatted s val digits).length ≤ out.length) :
    (∃ n out', formatFloat s out val digits = some (n, out') ∧
        out'.drop (out'.length - n) = canonical s digits (ties.round (val * 10 ^ digits))) ↔
      Printed ties val digits := by
  obtain ⟨out', hformat, hdrop⟩ := formatFloat_eq hval hdigits hroom
  have hwritten : (∃ n out', formatFloat s out val digits = some (n, out') ∧
      out'.drop (out'.length - n) = canonical s digits (ties.round (val * 10 ^ digits))) ↔
      formatted s val digits = canonical s digits (ties.round (val * 10 ^ digits)) := by
    constructor
    · intro ⟨n, out'', hformat', htext⟩
      rw [hformat] at hformat'
      cases hformat'
      rw [← hdrop, htext]
    · intro heq
      exact ⟨_, out', hformat, hdrop.trans heq⟩
  rw [hwritten, Printed]
  rcases le_or_gt 1 val with hone | hone
  · have hle := @pow_le_of_one_le val digits hone
    rw [rendered_of_one_le hone hdigits]
    constructor
    · intro hlt
      exact .inl ⟨hone, hlt⟩
    · rintro (⟨_, hlt⟩ | ⟨_, hlt, _⟩)
      · exact hlt
      · linarith
  · by_cases hfraction : 0 < digits ∧ |val| * 10 ^ digits < 10 ^ digits - 1 / 2
    · obtain ⟨hpos, hlt⟩ := hfraction
      rw [rendered_of_fraction hval hpos hlt hdigits]
      constructor
      · intro h
        exact .inr ⟨hpos, hlt, h⟩
      · rintro (⟨hge, _⟩ | ⟨_, _, h⟩)
        · linarith
        · exact h
    · refine iff_of_false (not_rendered_of_carry hval hone hdigits ?_) ?_
      · rcases Nat.eq_zero_or_pos digits with hzero | hpos
        · exact .inl hzero
        · exact .inr (not_lt.mp fun hlt => hfraction ⟨hpos, hlt⟩)
      · rintro (⟨hge, _⟩ | ⟨hpos, hlt, _⟩)
        · linarith
        · exact hfraction ⟨hpos, hlt⟩

end Rendering

def englishSymbols : DecimalFormatSymbols := ⟨',', '.', '-'⟩

theorem formatFloat_renders_thousands :
    ∃ n out', formatFloat englishSymbols (List.replicate 10 ' ') (123456 / 100) 1 = some (n, out') ∧
      out'.drop (out'.length - n) =
        canonical englishSymbols 1 (TieRule.halfUp.round (123456 / 100 * 10 ^ 1)) :=
  (formatFloat_renders_iff englishSymbols .halfUp (List.replicate 10 ' ') (by norm_num) (by decide)
    (by decide +kernel)).mpr (.inl (by norm_num [abs]))

/-- A negative value is printed with a zero before its integer part, under either tie rule. -/
theorem formatFloat_negative :
    (formatFloat englishSymbols (List.replicate 8 ' ') (-25 / 2) 1).map
        (fun printed => (printed.1, String.ofList printed.2)) = some (6, "  -012.5") ∧
      ∀ ties : TieRule, String.ofList
        (canonical englishSymbols 1 (ties.round (-25 / 2 * 10 ^ 1))) = "-12.5" := by
  refine ⟨by decide +kernel, ?_⟩
  intro ties
  cases ties <;> decide +kernel

end NumentaApps.MobileCore.DataUtils
