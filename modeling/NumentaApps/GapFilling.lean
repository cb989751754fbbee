import Mathlib.Order.Monotone.Basic
import Mathlib.Data.List.Nodup
import Mathlib.Data.List.Perm.Subperm
import Mathlib.Algebra.Order.Group.Nat

/-!
# Rows merged into a descending sequence of places

Places are numbered from the latest on, and rows come in descending order, each for one place.
They are merged in one pass over both, in which a place without a row is given none. At least so
many places are filled as are wanted; a row beyond them may draw more after it.
-/
namespace NumentaApps.GapFilling

variable {T α : Type} [LinearOrder T]

/-- The places before that of a row, and the number of the place where it is looked for. -/
def skip (time : ℕ → T) (t : T) : ℕ → ℕ → List (T × Option α) × ℕ
  | 0, i => ([], i)
  | fuel + 1, i =>
    if t < time i then
      let rest := skip time t fuel (i + 1)
      ((time i, none) :: rest.1, rest.2)
    else ([], i)

/-- A row that is not at the place where it is looked for is dropped, and so is the place. -/
def merge (time : ℕ → T) (fuel : T → ℕ → ℕ) (size : ℕ) : List (T × α) → ℕ → List (T × Option α)
  | [], i => (List.range' i (size - i)).map fun k => (time k, none)
  | row :: rows, i =>
    if size ≤ i then []
    else
      let skipped := skip time row.1 (fuel row.1 i) i
      skipped.1 ++ (if row.1 = time skipped.2 then [(row.1, some row.2)] else []) ++
        merge time fuel size rows (skipped.2 + 1)

variable {time : ℕ → T} {fuel : T → ℕ → ℕ} {size i k n : ℕ}

theorem skip_eq (htime : StrictAnti time) (hi : i ≤ k) (hfuel : k - i ≤ n) :
    skip (α := α) time (time k) n i =
      ((List.range' i (k - i)).map fun j => (time j, none), k) := by
  induction n generalizing i with
  | zero =>
    obtain rfl : i = k := by omega
    simp [skip]
  | succ n ih =>
    rw [skip]
    by_cases hk : i = k
    · subst hk
      simp
    · have hlt : i < k := by omega
      rw [if_pos (htime hlt), ih (by omega) (by omega)]
      have hrange : List.range' i (k - i) = i :: List.range' (i + 1) (k - (i + 1)) := by
        rw [show k - i = k - (i + 1) + 1 by omega, List.range'_succ]
      rw [hrange]
      rfl

theorem merge_past (h : size ≤ i) (rows : List (T × α)) : merge time fuel size rows i = [] := by
  cases rows with
  | nil =>
    rw [merge, Nat.sub_eq_zero_of_le h]
    rfl
  | cons row rows => rw [merge, if_pos h]

/-- The row of a place. -/
def rowAt (rows : List (ℕ × α)) (k : ℕ) : Option α := rows.lookup k

theorem rowAt_cons_self (x : α) (rows : List (ℕ × α)) : rowAt ((k, x) :: rows) k = some x := by
  rw [rowAt, List.lookup_cons_self]

theorem rowAt_cons_of_ne {j : ℕ} (h : j ≠ k) (x : α) (rows : List (ℕ × α)) :
    rowAt ((k, x) :: rows) j = rowAt rows j := by
  rw [rowAt, List.lookup_cons, beq_eq_false_iff_ne.mpr h]
  rfl

theorem rowAt_eq_none {rows : List (ℕ × α)} (h : ∀ row ∈ rows, row.1 ≠ k) : rowAt rows k = none := by
  induction rows with
  | nil => rfl
  | cons row rows ih =>
    obtain ⟨hrow, hrows⟩ := List.forall_mem_cons.mp h
    rw [show row = (row.1, row.2) from rfl, rowAt_cons_of_ne (Ne.symm hrow)]
    exact ih hrows

/-- From a place that is wanted or just past them, the merge fills consecutive places with their
rows. -/
theorem merge_eq (htime : StrictAnti time)
    (hfuel : ∀ i k, i ≤ k → k - i ≤ fuel (time k) i) {rows : List (ℕ × α)}
    (hsorted : rows.Pairwise fun row other => row.1 < other.1) (hstart : ∀ row ∈ rows, i ≤ row.1)
    (hi : i ≤ size) :
    ∃ n, size ≤ n ∧ ((∀ row ∈ rows, row.1 < size) → n = size) ∧
      merge time fuel size (rows.map fun row => (time row.1, row.2)) i =
        (List.range' i (n - i)).map fun k => (time k, rowAt rows k) := by
  induction rows generalizing i with
  | nil => exact ⟨size, le_rfl, fun _ => rfl, rfl⟩
  | cons row rows ih =>
    obtain ⟨k, x⟩ := row
    obtain ⟨hlater, hrest⟩ := List.pairwise_cons.mp hsorted
    have hik : i ≤ k := hstart _ List.mem_cons_self
    rw [List.map_cons, merge]
    by_cases hpast : size ≤ i
    · rw [if_pos hpast]
      refine ⟨size, le_rfl, fun _ => rfl, ?_⟩
      rw [Nat.sub_eq_zero_of_le hpast]
      rfl
    rw [if_neg hpast]
    simp only [skip_eq htime hik (hfuel i k hik), if_true]
    have hbefore : ∀ j ∈ List.range' i (k - i), rowAt ((k, x) :: rows) j = none := by
      intro j hj
      have hjk : j < k := by
        have hmem := List.mem_range'_1.mp hj
        omega
      apply rowAt_eq_none
      intro row hrow
      rcases List.mem_cons.mp hrow with rfl | hrow
      · exact Nat.ne_of_gt hjk
      · exact Nat.ne_of_gt (hjk.trans (hlater row hrow))
    have hafter : ∀ m, ∀ j ∈ List.range' (k + 1) m, rowAt ((k, x) :: rows) j = rowAt rows j := by
      intro m j hj
      apply rowAt_cons_of_ne
      have hmem := List.mem_range'_1.mp hj
      omega
    -- the places up to that of the row, and those after it
    have hsplit : ∀ n, k < n → List.range' i (n - i) =
        List.range' i (k - i) ++ k :: List.range' (k + 1) (n - (k + 1)) := by
      intro n hn
      have hlast : n - i = (k - i) + (n - (k + 1) + 1) := by omega
      rw [hlast, ← List.range'_append_1, show i + (k - i) = k by omega, List.range'_succ]
    have hfilled : ∀ n, k < n → ∀ places, places = (List.range' (k + 1) (n - (k + 1))).map
        (fun k => (time k, rowAt rows k)) →
        (List.range' i (k - i)).map (fun j => (time j, none)) ++ [(time k, some x)] ++ places =
          (List.range' i (n - i)).map fun j => (time j, rowAt ((k, x) :: rows) j) := by
      intro n hn places hplaces
      rw [hsplit n hn, List.map_append, List.map_cons, rowAt_cons_self, List.append_assoc, hplaces]
      congr 1
      · apply List.map_congr_left
        intro j hj
        rw [hbefore j hj]
      · rw [List.singleton_append]
        congr 1
        apply List.map_congr_left
        intro j hj
        rw [hafter _ j hj]
    by_cases hk : k + 1 ≤ size
    · obtain ⟨n, hn, hsize, hmerge⟩ :=
        ih hrest (fun row hrow => hlater row hrow) hk
      refine ⟨n, hn, fun hall => hsize fun row hrow => hall row (List.mem_cons_of_mem _ hrow), ?_⟩
      exact hfilled n (by omega) _ hmerge
    · refine ⟨k + 1, by omega, fun hall => ?_, ?_⟩
      · have hlt := hall (k, x) List.mem_cons_self
        omega
      · apply hfilled (k + 1) (by omega)
        rw [merge_past (by omega), Nat.sub_self]
        rfl

/-! ## The latest rows only -/

variable {rows : List (ℕ × α)} {row : ℕ × α}

theorem rowAt_eq_some (hsorted : rows.Pairwise fun row other => row.1 < other.1) {x : α} :
    rowAt rows k = some x ↔ (k, x) ∈ rows := by
  induction rows with
  | nil => simp [rowAt]
  | cons row rows ih =>
    obtain ⟨j, y⟩ := row
    obtain ⟨hlater, hrest⟩ := List.pairwise_cons.mp hsorted
    by_cases hk : k = j
    · subst hk
      have hnot : (k, x) ∉ rows := fun h => Nat.lt_irrefl k (hlater (k, x) h)
      rw [rowAt_cons_self, List.mem_cons, Option.some_inj]
      simp [hnot, eq_comm]
    · rw [rowAt_cons_of_ne hk, ih hrest, List.mem_cons]
      simp [hk]

/-- A row stands no later than the number of its place. -/
theorem mem_take (hsorted : rows.Pairwise fun row other => row.1 < other.1)
    (hstart : ∀ row ∈ rows, i ≤ row.1) (hrow : row ∈ rows) (hn : row.1 < i + n) :
    row ∈ rows.take n := by
  induction rows generalizing i n with
  | nil => cases hrow
  | cons first rows ih =>
    obtain ⟨hlater, hrest⟩ := List.pairwise_cons.mp hsorted
    have hfirst := hstart first List.mem_cons_self
    cases n with
    | zero =>
      have hle := hstart row hrow
      omega
    | succ n =>
      rw [List.take_succ_cons]
      rcases List.mem_cons.mp hrow with rfl | hrow
      · exact List.mem_cons_self
      · apply List.mem_cons_of_mem
        apply ih hrest (i := i + 1) _ hrow (by omega)
        intro other hother
        have hlt := hlater other hother
        omega

/-- If every place that is wanted has a row, no row beyond them is taken. -/
theorem lt_of_mem_take (hsorted : rows.Pairwise fun row other => row.1 < other.1)
    (hfull : ∀ k < size, ∃ row ∈ rows, row.1 = k) (hrow : row ∈ rows.take size) :
    row.1 < size := by
  by_contra hge
  have hkeys : ((rows.take size).map Prod.fst).Nodup := by
    apply List.Pairwise.map _ (fun _ _ h => Nat.ne_of_lt h)
    exact hsorted.sublist (List.take_sublist _ _)
  have hall : row.1 :: List.range size ⊆ (rows.take size).map Prod.fst := by
    intro k hk
    rcases List.mem_cons.mp hk with rfl | hk
    · exact List.mem_map.mpr ⟨row, hrow, rfl⟩
    · obtain ⟨other, hother, rfl⟩ := hfull k (List.mem_range.mp hk)
      refine List.mem_map.mpr ⟨other, ?_, rfl⟩
      apply mem_take hsorted (i := 0) (fun _ _ => Nat.zero_le _) hother
      have hlt := List.mem_range.mp hk
      omega
  have hnodup : (row.1 :: List.range size).Nodup := by
    apply List.nodup_cons.mpr
    exact ⟨fun hmem => hge (List.mem_range.mp hmem), List.nodup_range⟩
  have hle := (hnodup.subperm hall).length_le
  rw [List.length_cons, List.length_range, List.length_map, List.length_take] at hle
  omega

/-- The latest rows fill the places that are wanted, and others after them only if there are
rows for those, and not for all that are wanted. -/
theorem merge_take (htime : StrictAnti time)
    (hfuel : ∀ i k, i ≤ k → k - i ≤ fuel (time k) i)
    (hsorted : rows.Pairwise fun row other => row.1 < other.1) (size : ℕ) :
    ∃ extra, merge time fuel size ((rows.take size).map fun row => (time row.1, row.2)) 0 =
        ((List.range size).map fun k => (time k, rowAt rows k)) ++ extra ∧
      ((∀ row ∈ rows, row.1 < size) ∨ (∀ k < size, ∃ row ∈ rows, row.1 = k) → extra = []) := by
  have htaken : (rows.take size).Pairwise fun row other => row.1 < other.1 :=
    hsorted.sublist (List.take_sublist _ _)
  obtain ⟨n, hn, hsize, hmerge⟩ := merge_eq htime hfuel htaken
    (fun row _ => Nat.zero_le row.1) (Nat.zero_le size)
  have hrows : ∀ k < size, rowAt (rows.take size) k = rowAt rows k := by
    intro k hk
    apply Option.ext
    intro x
    rw [rowAt_eq_some htaken, rowAt_eq_some hsorted]
    constructor
    · intro h
      exact List.mem_of_mem_take h
    · intro h
      exact mem_take hsorted (fun _ _ => Nat.zero_le _) h (by omega)
  rw [Nat.sub_zero] at hmerge
  have hsplit : List.range' 0 n = List.range size ++ List.range' size (n - size) := by
    rw [List.range_eq_range', show List.range' size (n - size) =
      List.range' (0 + size) (n - size) by rw [Nat.zero_add], List.range'_append_1]
    rw [show size + (n - size) = n by omega]
  refine ⟨(List.range' size (n - size)).map fun k => (time k, rowAt (rows.take size) k), ?_, ?_⟩
  · rw [hmerge, hsplit, List.map_append]
    congr 1
    apply List.map_congr_left
    intro k hk
    rw [hrows k (List.mem_range.mp hk)]
  · intro h
    have hall : ∀ row ∈ rows.take size, row.1 < size := by
      rcases h with hwithin | hfull
      · exact fun row hrow => hwithin row (List.mem_of_mem_take hrow)
      · exact fun row hrow => lt_of_mem_take hsorted hfull hrow
    rw [hsize hall, Nat.sub_self]
    rfl

end NumentaApps.GapFilling
