import Mathlib.Algebra.BigOperators.Group.List.Basic
import Mathlib.Algebra.BigOperators.Ring.List
import Mathlib.Algebra.Order.Field.Basic
import Mathlib.Tactic.FieldSimp
import Mathlib.Tactic.Positivity
import Mathlib.Tactic.Ring

/-!
# Statistics of a sample, and how they change with one more value

The mean and the sum of squares about it follow the recurrences of a single pass. A least or a
greatest value is found by a fold from a value to start with, if that does not hide it.
-/
namespace NumentaApps.SampleStatistics

section Moments
variable {K : Type} [Field K]

def mean (xs : List K) : K := xs.sum / xs.length

/-- The sum of the squared distances from the mean. -/
def squares (xs : List K) : K := (xs.map fun x => (x - mean xs) ^ 2).sum

/-- The sample variance, which is zero for one value. -/
def variance (xs : List K) : K := if xs.length ≤ 1 then 0 else squares xs / (xs.length - 1)

theorem sum_squares_about (xs : List K) (a : K) :
    (xs.map fun x => (x - a) ^ 2).sum =
      (xs.map fun x => x ^ 2).sum - 2 * a * xs.sum + xs.length * a ^ 2 := by
  induction xs with
  | nil => simp
  | cons x xs ih =>
    simp only [List.map_cons, List.sum_cons, ih, List.length_cons]
    push_cast
    ring

variable [LinearOrder K] [IsStrictOrderedRing K] {xs : List K}

theorem mean_append (hxs : xs ≠ []) (x : K) :
    mean (xs ++ [x]) = mean xs + (x - mean xs) / (xs.length + 1 : ℕ) := by
  have hlength : (xs.length : K) ≠ 0 := by
    exact_mod_cast (List.length_pos_iff.mpr hxs).ne'
  have hnext : ((xs.length : K) + 1) ≠ 0 := by positivity
  simp only [mean, List.sum_append, List.sum_singleton, List.length_append, List.length_singleton]
  push_cast
  field_simp
  ring

theorem squares_append (hxs : xs ≠ []) (x : K) :
    squares (xs ++ [x]) = squares xs + (x - mean xs) * (x - mean (xs ++ [x])) := by
  have hlength : (xs.length : K) ≠ 0 := by
    exact_mod_cast (List.length_pos_iff.mpr hxs).ne'
  have hnext : ((xs.length : K) + 1) ≠ 0 := by positivity
  have hsum : xs.sum = mean xs * xs.length := by
    rw [mean, div_mul_cancel₀ _ hlength]
  rw [squares, squares, sum_squares_about, sum_squares_about, mean_append hxs x]
  simp only [List.map_append, List.map_cons, List.map_nil, List.sum_append, List.sum_singleton,
    List.length_append, List.length_singleton, hsum]
  push_cast
  field_simp
  ring

theorem mean_replicate {n : ℕ} (hn : 0 < n) (x : K) : mean (List.replicate n x) = x := by
  have hlength : (n : K) ≠ 0 := by exact_mod_cast hn.ne'
  rw [mean, List.sum_replicate, List.length_replicate, nsmul_eq_mul, mul_div_cancel_left₀ _ hlength]

theorem squares_replicate {n : ℕ} (hn : 0 < n) (x : K) : squares (List.replicate n x) = 0 := by
  rw [squares, mean_replicate hn]
  simp

theorem squares_singleton (x : K) : squares [x] = 0 := squares_replicate Nat.one_pos x

theorem constant_moments {c : K} (hxs : xs ≠ []) (h : ∀ x ∈ xs, x = c) :
    mean xs = c ∧ squares xs = 0 ∧ variance xs = 0 := by
  have hpos := List.length_pos_iff.mpr hxs
  rw [variance, List.eq_replicate_of_mem h, squares_replicate hpos, zero_div, ite_self]
  exact ⟨mean_replicate hpos c, rfl, rfl⟩

end Moments

/-! ## Extremes -/

section Extremes
variable {α : Type} [LinearOrder α] {xs : List α}

theorem foldl_min_le {x : α} (hx : x ∈ xs) (start : α) : xs.foldl min start ≤ x := by
  rw [List.foldl_min]
  apply min_le_of_right_le
  cases h : xs.min? with
  | none =>
    rw [List.min?_eq_none_iff.mp h] at hx
    cases hx
  | some least => exact (List.min?_eq_some_iff.mp h).2 x hx

theorem le_foldl_max {x : α} (hx : x ∈ xs) (start : α) : x ≤ xs.foldl max start := by
  rw [List.foldl_max]
  apply le_max_of_le_right
  cases h : xs.max? with
  | none =>
    rw [List.max?_eq_none_iff.mp h] at hx
    cases hx
  | some greatest => exact (List.max?_eq_some_iff.mp h).2 x hx

theorem extremes_of_constant {c : α} (hxs : xs ≠ []) (h : ∀ x ∈ xs, x = c) (default : α) :
    xs.min?.getD default = c ∧ xs.max?.getD default = c := by
  obtain ⟨least, hleast⟩ := Option.ne_none_iff_exists'.mp (mt List.min?_eq_none_iff.mp hxs)
  obtain ⟨greatest, hgreatest⟩ := Option.ne_none_iff_exists'.mp (mt List.max?_eq_none_iff.mp hxs)
  rw [hleast, hgreatest]
  exact ⟨h least (List.min?_eq_some_iff.mp hleast).1,
    h greatest (List.max?_eq_some_iff.mp hgreatest).1⟩

theorem foldl_min_eq_iff (hxs : xs ≠ []) (start default : α) :
    xs.foldl min start = xs.min?.getD default ↔ ∃ x ∈ xs, x ≤ start := by
  obtain ⟨least, hleast⟩ := Option.ne_none_iff_exists'.mp (mt List.min?_eq_none_iff.mp hxs)
  obtain ⟨hmem, hle⟩ := List.min?_eq_some_iff.mp hleast
  rw [List.foldl_min, hleast]
  simp only [Option.getD_some, min_eq_right_iff]
  constructor
  · intro h
    exact ⟨least, hmem, h⟩
  · rintro ⟨x, hx, h⟩
    exact (hle x hx).trans h

theorem foldl_max_eq_iff (hxs : xs ≠ []) (start default : α) :
    xs.foldl max start = xs.max?.getD default ↔ ∃ x ∈ xs, start ≤ x := by
  obtain ⟨greatest, hgreatest⟩ := Option.ne_none_iff_exists'.mp (mt List.max?_eq_none_iff.mp hxs)
  obtain ⟨hmem, hle⟩ := List.max?_eq_some_iff.mp hgreatest
  rw [List.foldl_max, hgreatest]
  simp only [Option.getD_some, max_eq_right_iff]
  constructor
  · intro h
    exact ⟨greatest, hmem, h⟩
  · rintro ⟨x, hx, h⟩
    exact h.trans (hle x hx)

end Extremes

end NumentaApps.SampleStatistics
