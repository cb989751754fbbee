import Mathlib.Algebra.Order.Ring.Rat
import Mathlib.Data.List.Basic
import Mathlib.Order.Lattice
import Mathlib.Data.Nat.Find
import Mathlib.Tactic.Linarith

/-!
# The shared binary search

The search of `common-utils`. An index is a JavaScript number; the sum of two of them is halved, and
the result complemented, in 32 bits. Reading past the end of an array gives `none`. The loop runs on
fuel, and it returns when some amount of fuel is enough.
-/
namespace NumentaApps.Unicorn.CommonUtils

/-- `x >>> 1`. -/
def unsignedHalf (x : ℤ) : ℤ := x % 2 ^ 32 / 2

def toInt32 (x : ℤ) : ℤ := x.bmod (2 ^ 32)

/-- `~x`. -/
def complement (x : ℤ) : ℤ := -toInt32 x - 1

theorem toInt32_eq {x : ℤ} (hlow : -2 ^ 31 ≤ x) (hhigh : x < 2 ^ 31) : toInt32 x = x :=
  Int.bmod_eq_of_le (by omega) (by omega)

theorem unsignedHalf_of_lt {x : ℤ} (hnonneg : 0 ≤ x) (hlt : x < 2 ^ 32) : unsignedHalf x = x / 2 := by
  rw [unsignedHalf, Int.emod_eq_of_lt hnonneg hlt]

theorem unsignedHalf_bounds (x : ℤ) : 0 ≤ unsignedHalf x ∧ unsignedHalf x < 2 ^ 31 := by
  rw [unsignedHalf]
  omega

/-- The first and the last index at which the key may still be. -/
structure Bounds where
  min : ℤ
  max : ℤ

inductive Outcome where
  | next (b : Bounds)
  | returned (result : ℤ)

variable {α κ : Type}

/-- One turn of the loop, with its test. -/
def searchStep (compare : Option α → κ → ℚ) (array : List α) (key : κ) (b : Bounds) : Outcome :=
  if b.min ≤ b.max then
    let mid := unsignedHalf (b.min + b.max)
    let res := compare array[mid.toNat]? key
    if res < 0 then .next { b with min := mid + 1 }
    else if 0 < res then .next { b with max := mid - 1 }
    else .returned mid
  else .returned (complement b.max)

def searchLoop (compare : Option α → κ → ℚ) (array : List α) (key : κ) : ℕ → Bounds → Option ℤ
  | 0, _ => none
  | fuel + 1, b =>
    match searchStep compare array key b with
    | .next b' => searchLoop compare array key fuel b'
    | .returned result => some result

def initialBounds (array : List α) : Bounds where
  min := 0
  max := array.length - 1

def binarySearch (array : List α) (key : κ) (compare : Option α → κ → ℚ) (fuel : ℕ) : Option ℤ :=
  searchLoop compare array key fuel (initialBounds array)

def Returns (array : List α) (key : κ) (compare : Option α → κ → ℚ) (result : ℤ) : Prop :=
  ∃ fuel, binarySearch array key compare fuel = some result

/-- What is documented of the result of a search for a key among sorted values. -/
structure Meets [LinearOrder κ] (values : List κ) (key : κ) (result : ℤ) : Prop where
  nonneg_iff : 0 ≤ result ↔ key ∈ values
  equal : key ∈ values → values[result.toNat]? = some key
  insertion : key ∉ values → ∃ place : ℕ, complement result = place ∧ place ≤ values.length ∧
    (values.insertIdx place key).Pairwise (· ≤ ·)

/-- A comparator that goes by a value of the elements. -/
structure Consistent [LinearOrder κ] (compare : Option α → κ → ℚ) (value : α → κ) : Prop where
  below : ∀ x key, compare (some x) key < 0 ↔ value x < key
  above : ∀ x key, 0 < compare (some x) key ↔ key < value x

/-- The first index after each turn, as long as every element probed is below the key. It depends on
the length alone. -/
def climb (length : ℤ) : ℕ → ℤ
  | 0 => 0
  | n + 1 => unsignedHalf (climb length n + (length - 1)) + 1

/-- The index probed in a turn of such a run. -/
def probe (length : ℤ) (n : ℕ) : ℕ := (unsignedHalf (climb length n + (length - 1))).toNat

/-- An element that the search probes before it has ever lowered its last index is not below the
key. -/
def StopsClimbing [LinearOrder κ] (values : List κ) (key : κ) : Prop :=
  ∃ n, ∃ x, values[probe values.length n]? = some x ∧ key ≤ x

section Loop
variable {compare : Option α → κ → ℚ} {array : List α} {key : κ} {b b' : Bounds} {result : ℤ}
  {fuel : ℕ}

theorem searchLoop_next (h : searchStep compare array key b = .next b') :
    searchLoop compare array key (fuel + 1) b = searchLoop compare array key fuel b' := by
  rw [searchLoop, h]

theorem searchLoop_returned (h : searchStep compare array key b = .returned result) :
    searchLoop compare array key (fuel + 1) b = some result := by
  rw [searchLoop, h]

theorem searchStep_past (h : b.max < b.min) :
    searchStep compare array key b = .returned (complement b.max) := by
  rw [searchStep, if_neg (by omega)]

theorem mem_values_iff {value : α → κ} :
    key ∈ array.map value ↔ ∃ (i : ℕ) (x : α), array[i]? = some x ∧ value x = key := by
  rw [List.mem_map]
  constructor
  · intro ⟨x, hx, hvalue⟩
    obtain ⟨i, hi⟩ := List.getElem?_of_mem hx
    exact ⟨i, x, hi, hvalue⟩
  · intro ⟨i, x, hx, hvalue⟩
    exact ⟨x, List.mem_of_getElem? hx, hvalue⟩

end Loop

section Search
variable [LinearOrder κ] {compare : Option α → κ → ℚ} {value : α → κ} {array : List α} {key : κ}
  {b b' : Bounds} {result : ℤ}

/-- The bounds enclose every place where the key may be. The first index is within 31 bits, since
it follows one that was halved. -/
structure Around (value : α → κ) (array : List α) (key : κ) (b : Bounds) : Prop where
  min_nonneg : 0 ≤ b.min
  min_le : b.min ≤ 2 ^ 31
  closed : b.min ≤ b.max + 1
  max_lt : b.max < array.length
  below : ∀ (i : ℕ) (x : α), array[i]? = some x → (i : ℤ) < b.min → value x < key
  above : ∀ (i : ℕ) (x : α), array[i]? = some x → b.max < (i : ℤ) → key < value x

theorem initialBounds_around : Around value array key (initialBounds array) where
  min_nonneg := le_refl 0
  min_le := by
    change (0 : ℤ) ≤ 2 ^ 31
    omega
  closed := by
    change (0 : ℤ) ≤ array.length - 1 + 1
    omega
  max_lt := by
    change (array.length : ℤ) - 1 < array.length
    omega
  below := by
    intro i x hx hi
    change (i : ℤ) < 0 at hi
    omega
  above := by
    intro i x hx hi
    have hlt : i < array.length := (List.getElem?_eq_some_iff.mp hx).1
    change (array.length : ℤ) - 1 < i at hi
    omega

theorem value_le_of_sorted (hsorted : (array.map value).Pairwise (· ≤ ·)) {i j : ℕ} {x y : α}
    (hx : array[i]? = some x) (hy : array[j]? = some y) (hij : i ≤ j) : value x ≤ value y := by
  obtain ⟨hi, hx⟩ := List.getElem?_eq_some_iff.mp hx
  obtain ⟨hj, hy⟩ := List.getElem?_eq_some_iff.mp hy
  rcases Nat.lt_or_eq_of_le hij with hlt | heq
  · have h := List.pairwise_iff_getElem.mp hsorted i j (by simpa using hi) (by simpa using hj) hlt
    simpa [hx, hy] using h
  · subst heq
    rw [← hx, ← hy]

/-- What is probed lies before the last index, also where the sum of the bounds does not fit in 32
bits: then it lies before the first index too. -/
theorem mid_spec (h : Around value array key b) (hle : b.min ≤ b.max) :
    ∃ x, array[(unsignedHalf (b.min + b.max)).toNat]? = some x ∧
      0 ≤ unsignedHalf (b.min + b.max) ∧ unsignedHalf (b.min + b.max) < 2 ^ 31 ∧
      unsignedHalf (b.min + b.max) ≤ b.max ∧
      (unsignedHalf (b.min + b.max) < b.min ∧ 2 ^ 31 ≤ b.max ∨
        b.min ≤ unsignedHalf (b.min + b.max)) := by
  have hmin := h.min_nonneg
  have hmin' := h.min_le
  have hmax := h.max_lt
  obtain ⟨hnonneg, hlt⟩ := unsignedHalf_bounds (b.min + b.max)
  have hmid : unsignedHalf (b.min + b.max) ≤ b.max := by
    rw [unsignedHalf]
    omega
  have hlt' : (unsignedHalf (b.min + b.max)).toNat < array.length := by omega
  refine ⟨array[(unsignedHalf (b.min + b.max)).toNat], List.getElem?_eq_getElem hlt', hnonneg, hlt,
    hmid, ?_⟩
  rw [unsignedHalf]
  omega

/-- What a turn of the loop does, by how the element it probes stands to the key. -/
theorem searchStep_cases (hconsistent : Consistent compare value) (hle : b.min ≤ b.max) {x : α}
    (hx : array[(unsignedHalf (b.min + b.max)).toNat]? = some x) :
    value x < key ∧ searchStep compare array key b =
        .next { b with min := unsignedHalf (b.min + b.max) + 1 } ∨
      key < value x ∧ searchStep compare array key b =
        .next { b with max := unsignedHalf (b.min + b.max) - 1 } ∨
      value x = key ∧ searchStep compare array key b =
        .returned (unsignedHalf (b.min + b.max)) := by
  have hbelow := hconsistent.below x key
  have habove := hconsistent.above x key
  simp only [searchStep, if_pos hle, hx]
  rcases lt_trichotomy (value x) key with hlt | heq | hgt
  · left
    exact ⟨hlt, if_pos (hbelow.mpr hlt)⟩
  · right
    right
    refine ⟨heq, ?_⟩
    rw [if_neg (mt hbelow.mp (by rw [heq]; exact lt_irrefl key)),
      if_neg (mt habove.mp (by rw [heq]; exact lt_irrefl key))]
  · right
    left
    refine ⟨hgt, ?_⟩
    rw [if_neg (mt hbelow.mp (lt_asymm hgt)), if_pos (habove.mpr hgt)]

theorem Around.step (h : Around value array key b) (hconsistent : Consistent compare value)
    (hsorted : (array.map value).Pairwise (· ≤ ·))
    (hstep : searchStep compare array key b = .next b') : Around value array key b' := by
  by_cases hle : b.min ≤ b.max
  swap
  · rw [searchStep_past (by omega)] at hstep
    cases hstep
  obtain ⟨x, hx, hnonneg, hlt, hmid, hplace⟩ := mid_spec h hle
  have hmin := h.min_nonneg
  have hmax := h.max_lt
  have hcases := @searchStep_cases _ _ _ _ _ _ key _ hconsistent hle _ hx
  rcases hcases with ⟨hvalue, hnext⟩ | ⟨hvalue, hnext⟩ | ⟨_, hreturned⟩
  · rw [hnext] at hstep
    cases hstep
    refine ⟨?_, ?_, ?_, hmax, ?_, h.above⟩
    · change 0 ≤ unsignedHalf (b.min + b.max) + 1
      omega
    · change unsignedHalf (b.min + b.max) + 1 ≤ 2 ^ 31
      omega
    · change unsignedHalf (b.min + b.max) + 1 ≤ b.max + 1
      omega
    · intro i y hy hi
      change (i : ℤ) < unsignedHalf (b.min + b.max) + 1 at hi
      exact lt_of_le_of_lt (value_le_of_sorted hsorted hy hx (by omega)) hvalue
  · rw [hnext] at hstep
    cases hstep
    -- an element above the key is not before the first index
    have hfirst : b.min ≤ unsignedHalf (b.min + b.max) := by
      rcases hplace with ⟨hbefore, _⟩ | hfirst
      · exact absurd (h.below _ x hx (by omega)) (lt_asymm hvalue)
      · exact hfirst
    refine ⟨hmin, h.min_le, ?_, ?_, h.below, ?_⟩
    · change b.min ≤ unsignedHalf (b.min + b.max) - 1 + 1
      omega
    · change unsignedHalf (b.min + b.max) - 1 < array.length
      omega
    · intro i y hy hi
      change unsignedHalf (b.min + b.max) - 1 < i at hi
      exact lt_of_lt_of_le hvalue (value_le_of_sorted hsorted hx hy (by omega))
  · rw [hreturned] at hstep
    cases hstep

theorem Around.returned (h : Around value array key b) (hconsistent : Consistent compare value)
    (hstep : searchStep compare array key b = .returned result) :
    (0 ≤ result ∧ ∃ x, array[result.toNat]? = some x ∧ value x = key) ∨
      (result = complement b.max ∧ b.min = b.max + 1) := by
  by_cases hle : b.min ≤ b.max
  · left
    obtain ⟨x, hx, hnonneg, _⟩ := mid_spec h hle
    have hcases := @searchStep_cases _ _ _ _ _ _ key _ hconsistent hle _ hx
    rcases hcases with ⟨_, hnext⟩ | ⟨_, hnext⟩ | ⟨hvalue, hreturned⟩
    · rw [hnext] at hstep
      cases hstep
    · rw [hnext] at hstep
      cases hstep
    · rw [hreturned] at hstep
      cases hstep
      exact ⟨hnonneg, x, hx, hvalue⟩
  · right
    have hclosed := h.closed
    rw [searchStep_past (by omega)] at hstep
    cases hstep
    exact ⟨rfl, by omega⟩

theorem Around.loop (h : Around value array key b) (hconsistent : Consistent compare value)
    (hsorted : (array.map value).Pairwise (· ≤ ·)) {fuel : ℕ}
    (hloop : searchLoop compare array key fuel b = some result) :
    ∃ b', Around value array key b' ∧ searchStep compare array key b' = .returned result := by
  induction fuel generalizing b with
  | zero => cases hloop
  | succ fuel ih =>
    cases hstep : searchStep compare array key b with
    | next b' =>
      rw [searchLoop_next hstep] at hloop
      exact ih (h.step hconsistent hsorted hstep) hloop
    | returned result' =>
      rw [searchLoop_returned hstep] at hloop
      cases hloop
      exact ⟨b, h, hstep⟩

/-- Once the bounds have passed each other, no place is left for the key. -/
theorem Around.absent (h : Around value array key b) (hpast : b.min = b.max + 1) :
    key ∉ array.map value := by
  rw [mem_values_iff]
  intro ⟨i, x, hx, hvalue⟩
  rcases Int.lt_or_le (i : ℤ) b.min with hlt | hle
  · exact absurd (h.below i x hx hlt) (by rw [hvalue]; exact lt_irrefl key)
  · exact absurd (h.above i x hx (by omega)) (by rw [hvalue]; exact lt_irrefl key)

theorem Around.open_of_mem (h : Around value array key b) (hmem : key ∈ array.map value) :
    b.min ≤ b.max := by
  have hclosed := h.closed
  by_contra hpast
  exact h.absent (by omega) hmem

theorem meets_of_returns (hconsistent : Consistent compare value)
    (hsorted : (array.map value).Pairwise (· ≤ ·))
    (hmem : key ∈ array.map value) (hreturns : Returns array key compare result) :
    Meets (array.map value) key result := by
  obtain ⟨fuel, hloop⟩ := hreturns
  obtain ⟨b, hb, hstep⟩ := initialBounds_around.loop hconsistent hsorted hloop
  rcases hb.returned hconsistent hstep with ⟨hnonneg, x, hx, hvalue⟩ | ⟨_, hpast⟩
  · refine ⟨iff_of_true hnonneg hmem, fun _ => ?_, fun hnot => absurd hmem hnot⟩
    rw [List.getElem?_map, hx, ← hvalue]
    rfl
  · exact absurd hmem (hb.absent hpast)

/-- A key inserted before an element below it is out of order. -/
theorem not_sorted_insertIdx {values : List κ} {i : ℕ} {x : κ} (hx : values[i]? = some x)
    (hlt : x < key) : ¬ (values.insertIdx i key).Pairwise (· ≤ ·) := by
  intro hsorted
  obtain ⟨hi, hget⟩ := List.getElem?_eq_some_iff.mp hx
  have hlength : (values.insertIdx i key).length = values.length + 1 :=
    List.length_insertIdx_of_le_length hi.le key
  have hle := List.pairwise_iff_getElem.mp hsorted i (i + 1) (by omega) (by omega) (by omega)
  rw [List.getElem_insertIdx_self, List.getElem_insertIdx_of_gt (by omega)] at hle
  simp only [Nat.add_sub_cancel, hget] at hle
  exact absurd hlt (not_lt_of_ge hle)

/-- The index that is complemented is one before the place of insertion. -/
theorem not_meets_of_absent (hconsistent : Consistent compare value)
    (hsorted : (array.map value).Pairwise (· ≤ ·))
    (hnot : key ∉ array.map value) (hreturns : Returns array key compare result) :
    ¬ Meets (array.map value) key result := by
  intro hmeets
  obtain ⟨fuel, hloop⟩ := hreturns
  obtain ⟨b, hb, hstep⟩ := initialBounds_around.loop hconsistent hsorted hloop
  rcases hb.returned hconsistent hstep with ⟨_, x, hx, hvalue⟩ | ⟨hresult, hpast⟩
  · exact hnot (mem_values_iff.mpr ⟨_, x, hx, hvalue⟩)
  have hmin := hb.min_nonneg
  have hmin' := hb.min_le
  have hmax := hb.max_lt
  have hvalue : result = -b.min := by
    rw [hresult, complement, toInt32_eq (by omega) (by omega)]
    omega
  have hpos : 0 < b.min := by
    have hneg : ¬ 0 ≤ result := mt hmeets.nonneg_iff.mp hnot
    omega
  obtain ⟨place, hplace, _, hinsert⟩ := hmeets.insertion hnot
  have hbefore : (place : ℤ) = b.min - 1 := by
    rw [← hplace, hvalue, complement, toInt32_eq (by omega) (by omega)]
    omega
  have hlt : place < array.length := by omega
  refine not_sorted_insertIdx (x := value array[place]) ?_ ?_ hinsert
  · rw [List.getElem?_map, List.getElem?_eq_getElem hlt]
    rfl
  · exact hb.below place _ (List.getElem?_eq_getElem hlt) (by omega)

/-- The bounds of a run in which every element probed so far was below the key. -/
def climbingBounds (array : List α) (n : ℕ) : Bounds where
  min := climb array.length n
  max := array.length - 1

theorem climb_le (length : ℤ) (n : ℕ) : climb length n ≤ 2 ^ 31 := by
  cases n with
  | zero =>
    rw [climb]
    omega
  | succ n =>
    have h := unsignedHalf_bounds (climb length n + (length - 1))
    rw [climb]
    omega

/-- The bounds close while the last index is within 31 bits: then the sum of the two is not cut
off, and what is probed lies between them. -/
theorem Around.returns (h : Around value array key b) (hconsistent : Consistent compare value)
    (hsorted : (array.map value).Pairwise (· ≤ ·)) (hmax : b.max < 2 ^ 31) {fuel : ℕ}
    (hfuel : b.max + 1 - b.min < fuel) : ∃ result, searchLoop compare array key fuel b = some result := by
  induction fuel generalizing b with
  | zero =>
    have hclosed := h.closed
    omega
  | succ fuel ih =>
    by_cases hle : b.min ≤ b.max
    swap
    · exact ⟨_, searchLoop_returned (searchStep_past (by omega))⟩
    obtain ⟨x, hx, _, _, hmid, hplace⟩ := mid_spec h hle
    have hcases := @searchStep_cases _ _ _ _ _ _ key _ hconsistent hle _ hx
    rcases hcases with ⟨_, hnext⟩ | ⟨_, hnext⟩ | ⟨_, hreturned⟩
    · rw [searchLoop_next hnext]
      apply ih (h.step hconsistent hsorted hnext) hmax
      change b.max + 1 - (unsignedHalf (b.min + b.max) + 1) < fuel
      omega
    · rw [searchLoop_next hnext]
      apply ih (h.step hconsistent hsorted hnext)
      · change unsignedHalf (b.min + b.max) - 1 < 2 ^ 31
        omega
      · change unsignedHalf (b.min + b.max) - 1 + 1 - b.min < fuel
        omega
    · exact ⟨_, searchLoop_returned hreturned⟩

theorem returns_of_length (hconsistent : Consistent compare value)
    (hsorted : (array.map value).Pairwise (· ≤ ·)) (hlength : array.length ≤ 2 ^ 31) :
    ∃ result, Returns array key compare result := by
  have hmax : (initialBounds array).max < 2 ^ 31 := by
    change (array.length : ℤ) - 1 < 2 ^ 31
    omega
  have hfuel : (initialBounds array).max + 1 - (initialBounds array).min < (array.length + 1 : ℕ) := by
    change (array.length : ℤ) - 1 + 1 - 0 < (array.length + 1 : ℕ)
    omega
  obtain ⟨result, hloop⟩ := initialBounds_around.returns hconsistent hsorted hmax hfuel
  exact ⟨result, _, hloop⟩

theorem probe_eq (n : ℕ) :
    probe array.length n =
      (unsignedHalf ((climbingBounds array n).min + (climbingBounds array n).max)).toNat :=
  rfl

/-- A last index that was halved is within 31 bits, and from then on the bounds close. -/
theorem Around.returns_of_lowered (h : Around value array key b)
    (hconsistent : Consistent compare value) (hsorted : (array.map value).Pairwise (· ≤ ·))
    (hnext : searchStep compare array key b =
      .next { b with max := unsignedHalf (b.min + b.max) - 1 }) :
    ∃ fuel result, searchLoop compare array key fuel b = some result := by
  have hlt := (unsignedHalf_bounds (b.min + b.max)).2
  have hmin := h.min_nonneg
  obtain ⟨result, hloop⟩ := @Around.returns _ _ _ _ _ _ _ _ (h.step hconsistent hsorted hnext)
    hconsistent hsorted (Int.lt_of_le_of_lt (Int.sub_le_self _ (by omega)) hlt) (2 ^ 31) (by
      change unsignedHalf (b.min + b.max) - 1 + 1 - b.min < (2 ^ 31 : ℕ)
      omega)
  exact ⟨_, result, (searchLoop_next hnext).trans hloop⟩

/-- A search for a key that occurs ends when one of the elements probed on the way up is not below
the key. -/
theorem climbing_returns (hconsistent : Consistent compare value)
    (hsorted : (array.map value).Pairwise (· ≤ ·)) (hmem : key ∈ array.map value) {n turns : ℕ}
    {x : α} (hx : array[probe array.length (n + turns)]? = some x) (hle : key ≤ value x)
    (h : Around value array key (climbingBounds array n)) :
    ∃ fuel result, searchLoop compare array key fuel (climbingBounds array n) = some result := by
  induction turns generalizing n with
  | zero =>
    have hcases := @searchStep_cases _ _ _ _ _ _ key _ hconsistent (h.open_of_mem hmem) _ hx
    rcases hcases with ⟨hbelow, _⟩ | ⟨_, hnext⟩ | ⟨_, hreturned⟩
    · exact absurd hbelow (not_lt_of_ge hle)
    · exact h.returns_of_lowered hconsistent hsorted hnext
    · exact ⟨1, _, searchLoop_returned hreturned⟩
  | succ turns ih =>
    obtain ⟨y, hy, _⟩ := mid_spec h (h.open_of_mem hmem)
    have hcases := @searchStep_cases _ _ _ _ _ _ key _ hconsistent (h.open_of_mem hmem) _ hy
    rcases hcases with ⟨_, hnext⟩ | ⟨_, hnext⟩ | ⟨_, hreturned⟩
    · have hx' : array[probe array.length (n + 1 + turns)]? = some x := by
        rwa [Nat.add_assoc, Nat.add_comm 1 turns]
      obtain ⟨fuel, result, hloop⟩ := ih hx' (h.step hconsistent hsorted hnext)
      exact ⟨fuel + 1, result, (searchLoop_next hnext).trans hloop⟩
    · exact h.returns_of_lowered hconsistent hsorted hnext
    · exact ⟨1, _, searchLoop_returned hreturned⟩

theorem returns_of_stopsClimbing (hconsistent : Consistent compare value)
    (hsorted : (array.map value).Pairwise (· ≤ ·)) (hmem : key ∈ array.map value)
    (hstops : StopsClimbing (array.map value) key) : ∃ result, Returns array key compare result := by
  obtain ⟨n, y, hy, hle⟩ := hstops
  rw [List.length_map, List.getElem?_map, Option.map_eq_some_iff] at hy
  obtain ⟨x, hx, rfl⟩ := hy
  have hx' : array[probe array.length (0 + n)]? = some x := by rwa [Nat.zero_add]
  obtain ⟨fuel, result, hloop⟩ :=
    climbing_returns hconsistent hsorted hmem hx' hle initialBounds_around
  exact ⟨result, fuel, hloop⟩

/-- In an array of more than `2 ^ 31` elements the bounds never pass each other on the way up. -/
theorem climbing_runs_on (hconsistent : Consistent compare value) (hlength : 2 ^ 31 < array.length)
    (hbelow : ¬ StopsClimbing (array.map value) key) (n fuel : ℕ)
    (h : Around value array key (climbingBounds array n))
    (hsorted : (array.map value).Pairwise (· ≤ ·)) :
    searchLoop compare array key fuel (climbingBounds array n) = none := by
  induction fuel generalizing n with
  | zero => rfl
  | succ fuel ih =>
    have hle : (climbingBounds array n).min ≤ (climbingBounds array n).max := by
      have hclimb := climb_le array.length n
      change climb array.length n ≤ array.length - 1
      omega
    obtain ⟨x, hx, _⟩ := mid_spec h hle
    have hlt : ¬ key ≤ value x := by
      intro hge
      refine hbelow ⟨n, value x, ?_, hge⟩
      rw [List.length_map, List.getElem?_map]
      exact congrArg (Option.map value) hx
    have hcases := @searchStep_cases _ _ _ _ _ _ key _ hconsistent hle _ hx
    rcases hcases with ⟨_, hnext⟩ | ⟨habove, _⟩ | ⟨hequal, _⟩
    · rw [searchLoop_next hnext]
      exact ih (n + 1) (h.step hconsistent hsorted hnext)
    · exact absurd habove.le hlt
    · exact absurd hequal.ge hlt

/-- A search meets its contract exactly for a key that occurs, and among more than `2 ^ 31` elements
only if it stops climbing. -/
theorem binarySearch_meets_iff (hconsistent : Consistent compare value)
    (hsorted : (array.map value).Pairwise (· ≤ ·)) :
    (∃ result, Returns array key compare result ∧ Meets (array.map value) key result) ↔
      key ∈ array.map value ∧
        (array.length ≤ 2 ^ 31 ∨ StopsClimbing (array.map value) key) := by
  constructor
  · intro ⟨result, hreturns, hmeets⟩
    have hmem : key ∈ array.map value := by
      by_contra hnot
      exact not_meets_of_absent hconsistent hsorted hnot hreturns hmeets
    refine ⟨hmem, ?_⟩
    by_contra hnever
    obtain ⟨hlength, hbelow⟩ := not_or.mp hnever
    obtain ⟨fuel, hloop⟩ := hreturns
    have hnone := climbing_runs_on hconsistent (by omega) hbelow 0 fuel initialBounds_around hsorted
    exact absurd (hloop.symm.trans hnone) (Option.some_ne_none result)
  · intro ⟨hmem, hends⟩
    have hreturns : ∃ result, Returns array key compare result := by
      rcases hends with hlength | hstops
      · exact returns_of_length hconsistent hsorted hlength
      · exact returns_of_stopsClimbing hconsistent hsorted hmem hstops
    obtain ⟨result, hreturns⟩ := hreturns
    exact ⟨result, hreturns, meets_of_returns hconsistent hsorted hmem hreturns⟩

end Search

/-- The comparator of the anomaly bars, on rows that are their times. -/
def compareTimes (current : Option ℚ) (key : ℚ) : ℚ := current.getD 0 - key

theorem compareTimes_consistent : Consistent compareTimes id where
  below := fun x key => by
    rw [compareTimes]
    exact sub_neg
  above := fun x key => by
    rw [compareTimes]
    exact sub_pos

theorem binarySearch_meets_second :
    ∃ result, Returns [1, 2, 4] 2 compareTimes result ∧ Meets ([1, 2, 4].map id) (2 : ℚ) result :=
  (binarySearch_meets_iff compareTimes_consistent (by decide +kernel)).mpr
    ⟨by decide +kernel, Or.inl (by decide)⟩

/-- A key below the only element is answered with zero, as if it were found there. -/
theorem binarySearch_below_all : Returns [1] 0 compareTimes 0 ∧
    ¬ ∃ result, Returns [1] 0 compareTimes result ∧ Meets ([1].map id) (0 : ℚ) result := by
  refine ⟨⟨2, by decide +kernel⟩, ?_⟩
  intro ⟨result, hreturns, hmeets⟩
  exact not_meets_of_absent compareTimes_consistent (by decide +kernel) (by decide +kernel) hreturns
    hmeets

end NumentaApps.Unicorn.CommonUtils
