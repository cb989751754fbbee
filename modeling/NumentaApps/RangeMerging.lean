import Mathlib.Data.List.Basic
import Mathlib.Order.Lattice
import Mathlib.Order.MinMax

/-!
# Merging ranges

Ranges with both ends in a linear order come with their first ends ascending. In one pass a range
that begins before the end of those before it extends them, and any other begins a new one. The
merged ranges are apart, and they cover what the ranges cover.
-/
namespace NumentaApps.RangeMerging

variable {T : Type} [LinearOrder T]

def Within (r : T × T) (t : T) : Prop := r.1 ≤ t ∧ t ≤ r.2

def merge (current : T × T) : List (T × T) → List (T × T)
  | [] => [current]
  | r :: rs =>
    if r.1 ≤ current.2 then merge (current.1, max current.2 r.2) rs else current :: merge r rs

/-- First ends ascend, and no range is empty. -/
structure Ascending (current : T × T) (rs : List (T × T)) : Prop where
  nonempty : ∀ r ∈ current :: rs, r.1 ≤ r.2
  ascending : (current :: rs).Pairwise fun r r' => r.1 ≤ r'.1

variable {current r m m' : T × T} {rs : List (T × T)} {t : T}

theorem Ascending.extend (h : Ascending current (r :: rs)) :
    Ascending (current.1, max current.2 r.2) rs := by
  obtain ⟨hcurrent, hrest⟩ := List.pairwise_cons.mp h.ascending
  constructor
  · intro r' hr'
    rcases List.mem_cons.mp hr' with rfl | hmem
    · exact le_trans (h.nonempty current List.mem_cons_self) (le_max_left _ _)
    · exact h.nonempty r' (List.mem_cons_of_mem _ (List.mem_cons_of_mem _ hmem))
  · refine List.pairwise_cons.mpr ⟨fun r' hr' => ?_, (List.pairwise_cons.mp hrest).2⟩
    exact hcurrent r' (List.mem_cons_of_mem _ hr')

theorem Ascending.next (h : Ascending current (r :: rs)) : Ascending r rs where
  nonempty := fun r' hr' => h.nonempty r' (List.mem_cons_of_mem _ hr')
  ascending := (List.pairwise_cons.mp h.ascending).2

/-- A merged range begins where one of the ranges does. -/
theorem exists_first (hm : m ∈ merge current rs) : ∃ r ∈ current :: rs, r.1 = m.1 := by
  induction rs generalizing current with
  | nil =>
    obtain rfl := List.mem_singleton.mp hm
    exact ⟨m, List.mem_cons_self, rfl⟩
  | cons r rs ih =>
    rw [merge] at hm
    split at hm
    · obtain ⟨r', hr', hfirst⟩ := ih hm
      rcases List.mem_cons.mp hr' with rfl | hmem
      · exact ⟨current, List.mem_cons_self, hfirst⟩
      · exact ⟨r', List.mem_cons_of_mem _ (List.mem_cons_of_mem _ hmem), hfirst⟩
    · rcases List.mem_cons.mp hm with rfl | hmem
      · exact ⟨m, List.mem_cons_self, rfl⟩
      · obtain ⟨r', hr', hfirst⟩ := ih hmem
        exact ⟨r', List.mem_cons_of_mem _ hr', hfirst⟩

theorem merge_nonempty (h : Ascending current rs) (hm : m ∈ merge current rs) : m.1 ≤ m.2 := by
  induction rs generalizing current with
  | nil =>
    obtain rfl := List.mem_singleton.mp hm
    exact h.nonempty m List.mem_cons_self
  | cons r rs ih =>
    rw [merge] at hm
    split at hm
    · exact ih h.extend hm
    · rcases List.mem_cons.mp hm with rfl | hmem
      · exact h.nonempty m List.mem_cons_self
      · exact ih h.next hmem

/-- Every merged range ends before the next one begins. -/
theorem merge_apart (h : Ascending current rs) :
    (merge current rs).Pairwise fun m m' => m.2 < m'.1 := by
  induction rs generalizing current with
  | nil => exact List.pairwise_singleton _ _
  | cons r rs ih =>
    rw [merge]
    split
    · exact ih h.extend
    · next hnew =>
      refine List.pairwise_cons.mpr ⟨fun m hm => ?_, ih h.next⟩
      obtain ⟨r', hr', hfirst⟩ := exists_first hm
      have hle : r.1 ≤ r'.1 := by
        rcases List.mem_cons.mp hr' with rfl | hmem
        · exact le_refl _
        · exact (List.pairwise_cons.mp h.next.ascending).1 r' hmem
      rw [← hfirst]
      exact lt_of_lt_of_le (not_le.mp hnew) hle

theorem exists_merged (h : Ascending current rs) (hr : r ∈ current :: rs) :
    ∃ m ∈ merge current rs, m.1 ≤ r.1 ∧ r.2 ≤ m.2 := by
  induction rs generalizing current r with
  | nil =>
    obtain rfl := List.mem_singleton.mp hr
    exact ⟨r, List.mem_singleton_self r, le_refl _, le_refl _⟩
  | cons r' rs ih =>
    rw [merge]
    split
    · rcases List.mem_cons.mp hr with rfl | hmem
      · obtain ⟨m, hm, hfirst, hlast⟩ := ih h.extend List.mem_cons_self
        exact ⟨m, hm, hfirst, le_trans (le_max_left _ _) hlast⟩
      · rcases List.mem_cons.mp hmem with rfl | hmem
        · obtain ⟨m, hm, hfirst, hlast⟩ := ih h.extend List.mem_cons_self
          refine ⟨m, hm, le_trans hfirst ?_, le_trans (le_max_right _ _) hlast⟩
          exact (List.pairwise_cons.mp h.ascending).1 r List.mem_cons_self
        · exact ih h.extend (List.mem_cons_of_mem _ hmem)
    · rcases List.mem_cons.mp hr with rfl | hmem
      · exact ⟨r, List.mem_cons_self, le_refl _, le_refl _⟩
      · obtain ⟨m, hm, hbounds⟩ := ih h.next hmem
        exact ⟨m, List.mem_cons_of_mem _ hm, hbounds⟩

theorem eq_of_within {ms : List (T × T)} (h : ms.Pairwise fun m m' => m.2 < m'.1) (hm : m ∈ ms)
    (hm' : m' ∈ ms) (ht : Within m t) (ht' : Within m' t) : m = m' := by
  induction ms with
  | nil => cases hm
  | cons x ms ih =>
    obtain ⟨hx, hms⟩ := List.pairwise_cons.mp h
    rcases List.mem_cons.mp hm with rfl | hmem
    · rcases List.mem_cons.mp hm' with rfl | hmem'
      · rfl
      · exact absurd (lt_of_le_of_lt ht.2 (hx m' hmem')) (not_lt_of_ge ht'.1)
    · rcases List.mem_cons.mp hm' with rfl | hmem'
      · exact absurd (lt_of_le_of_lt ht'.2 (hx m hmem)) (not_lt_of_ge ht.1)
      · exact ih hms hmem hmem'

/-- A range that begins within a merged range ends within it. -/
theorem le_of_within (h : Ascending current rs) (hm : m ∈ merge current rs)
    (hr : r ∈ current :: rs) (hwithin : Within m r.1) : r.2 ≤ m.2 := by
  obtain ⟨m', hm', hfirst, hlast⟩ := exists_merged h hr
  have hwithin' : Within m' r.1 := ⟨hfirst, le_trans (h.nonempty r hr) hlast⟩
  rw [eq_of_within (merge_apart h) hm hm' hwithin hwithin']
  exact hlast

/-- What lies in a merged range past its first end lies in a range that begins before it. -/
theorem exists_before (hm : m ∈ merge current rs) (hlt : m.1 < t) (hle : t ≤ m.2) :
    ∃ r ∈ current :: rs, r.1 < t ∧ t ≤ r.2 := by
  induction rs generalizing current with
  | nil =>
    obtain rfl := List.mem_singleton.mp hm
    exact ⟨m, List.mem_cons_self, hlt, hle⟩
  | cons r rs ih =>
    rw [merge] at hm
    split at hm
    · next hextends =>
      obtain ⟨r', hr', hlt', hle'⟩ := ih hm
      rcases List.mem_cons.mp hr' with rfl | hmem
      · rcases le_max_iff.mp hle' with hcurrent | hr
        · exact ⟨current, List.mem_cons_self, hlt', hcurrent⟩
        · rcases lt_or_ge r.1 t with hfirst | hfirst
          · exact ⟨r, List.mem_cons_of_mem _ List.mem_cons_self, hfirst, hr⟩
          · exact ⟨current, List.mem_cons_self, hlt', le_trans hfirst hextends⟩
      · exact ⟨r', List.mem_cons_of_mem _ (List.mem_cons_of_mem _ hmem), hlt', hle'⟩
    · rcases List.mem_cons.mp hm with rfl | hmem
      · exact ⟨m, List.mem_cons_self, hlt, hle⟩
      · obtain ⟨r', hr', hbounds⟩ := ih hmem
        exact ⟨r', List.mem_cons_of_mem _ hr', hbounds⟩

theorem merge_ne_nil (current : T × T) (rs : List (T × T)) : merge current rs ≠ [] := by
  induction rs generalizing current with
  | nil => exact List.cons_ne_nil _ _
  | cons r rs ih =>
    rw [merge]
    split
    · exact ih _
    · exact List.cons_ne_nil _ _

end NumentaApps.RangeMerging
