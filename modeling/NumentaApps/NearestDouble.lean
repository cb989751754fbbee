import Mathlib.Data.Int.Log
import Mathlib.Data.Rat.Floor
import Mathlib.Algebra.Ring.Int.Parity
import Mathlib.Tactic.Linarith
import Mathlib.Tactic.NormNum
import Mathlib.Tactic.FieldSimp

/-!
# Nearest doubles

A rational number rounded to 53 significant bits, to even in the middle. Only normal numbers are
considered. What is used of the rounding: it adds half of the spacing at most, and it does not go
below an integer.
-/
namespace NumentaApps.NearestDouble

/-- The nearest integer, the even one in the middle between two. -/
def roundToEven (q : ℚ) : ℤ :=
  if q - ⌊q⌋ < 1 / 2 ∨ q - ⌊q⌋ = 1 / 2 ∧ Even ⌊q⌋ then ⌊q⌋ else ⌊q⌋ + 1

theorem le_roundToEven {n : ℤ} {q : ℚ} (h : (n : ℚ) ≤ q) : n ≤ roundToEven q := by
  have hfloor : n ≤ ⌊q⌋ := Int.le_floor.mpr h
  unfold roundToEven
  split
  · exact hfloor
  · omega

theorem roundToEven_le (q : ℚ) : (roundToEven q : ℚ) ≤ q + 1 / 2 := by
  have hfloor : (⌊q⌋ : ℚ) ≤ q := Int.floor_le q
  unfold roundToEven
  split
  · linarith
  · next h =>
    have hhalf : 1 / 2 ≤ q - ⌊q⌋ := not_lt.mp fun hlt => h (.inl hlt)
    push_cast
    linarith

/-- The distance between two neighbouring doubles. -/
def spacing (x : ℚ) : ℚ := 2 ^ (Int.log 2 |x| - 52)

def nearestDouble (x : ℚ) : ℚ := roundToEven (x / spacing x) * spacing x

theorem spacing_pos (x : ℚ) : 0 < spacing x := zpow_pos two_pos _

theorem nearestDouble_le (x : ℚ) : nearestDouble x ≤ x + spacing x / 2 := by
  have hpos := spacing_pos x
  calc
    nearestDouble x ≤ (x / spacing x + 1 / 2) * spacing x :=
      mul_le_mul_of_nonneg_right (roundToEven_le _) hpos.le
    _ = x + spacing x / 2 := by field_simp

theorem nearestDouble_nonpos {x : ℚ} (hx : x ≤ 0) : nearestDouble x ≤ 0 := by
  have hpos := spacing_pos x
  have hle : (roundToEven (x / spacing x) : ℚ) ≤ 1 / 2 := by
    have hquotient : x / spacing x ≤ 0 := div_nonpos_of_nonpos_of_nonneg hx hpos.le
    have hround := roundToEven_le (x / spacing x)
    linarith
  have hzero : roundToEven (x / spacing x) ≤ 0 := by
    by_contra hlt
    have hone : (1 : ℚ) ≤ roundToEven (x / spacing x) := by exact_mod_cast not_le.mp hlt
    linarith
  exact mul_nonpos_of_nonpos_of_nonneg (by exact_mod_cast hzero) hpos.le

/-- Below a power of two the doubles are as close as just below it. -/
theorem spacing_le {x : ℚ} {e : ℤ} (he : 0 ≤ e) (hx : |x| < 2 ^ (e + 1)) :
    spacing x ≤ 2 ^ (e - 52) := by
  have hlog : Int.log 2 |x| ≤ e := by
    rcases (abs_nonneg x).eq_or_lt' with hzero | hpos
    · rw [hzero, Int.log_zero_right]
      exact he
    · have hlt : Int.log 2 |x| < e + 1 := (Int.lt_zpow_iff_log_lt one_lt_two hpos).mp
        (by exact_mod_cast hx)
      omega
  exact zpow_le_zpow_right₀ one_le_two (by omega)

/-- Where all integers are doubles, the rounding does not go below one. -/
theorem le_nearestDouble {n : ℤ} {x : ℚ} (h : (n : ℚ) ≤ x) (hx : |x| < 2 ^ (53 : ℤ)) :
    (n : ℚ) ≤ nearestDouble x := by
  have hpos := spacing_pos x
  have hlog : Int.log 2 |x| ≤ 52 := by
    rcases (abs_nonneg x).eq_or_lt' with hzero | hpos
    · rw [hzero, Int.log_zero_right]
      omega
    · have hlt : Int.log 2 |x| < 53 := (Int.lt_zpow_iff_log_lt one_lt_two hpos).mp
        (by exact_mod_cast hx)
      omega
  -- `n` is an integral number of spacings
  obtain ⟨k, hk⟩ : ∃ k : ℕ, 52 - Int.log 2 |x| = k := ⟨_, (Int.toNat_of_nonneg (by omega)).symm⟩
  have hspacing : spacing x = ((2 : ℚ) ^ k)⁻¹ := by
    unfold spacing
    rw [← zpow_natCast, ← hk, ← zpow_neg]
    congr 1
    ring
  have hinteger : (n : ℚ) = (n * 2 ^ k : ℤ) * spacing x := by
    rw [hspacing]
    push_cast
    field_simp
  have hle : ((n * 2 ^ k : ℤ) : ℚ) ≤ x / spacing x := by
    rw [le_div_iff₀ hpos, ← hinteger]
    exact h
  calc
    (n : ℚ) = (n * 2 ^ k : ℤ) * spacing x := hinteger
    _ ≤ nearestDouble x :=
      mul_le_mul_of_nonneg_right (by exact_mod_cast le_roundToEven hle) hpos.le

end NumentaApps.NearestDouble
