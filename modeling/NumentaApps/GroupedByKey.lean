import Mathlib.Data.List.Nodup
import Mathlib.Data.List.Perm.Basic

/-!
# Values grouped by a key

A dictionary of lists, to which values are appended one by one. The order of its entries is not
part of what it is: what is said of it holds of its entries in any order.
-/
namespace NumentaApps.GroupedByKey

variable {κ α : Type} [DecidableEq κ]

def append (key : κ) (x : α) : List (κ × List α) → List (κ × List α)
  | [] => [(key, [x])]
  | entry :: entries =>
    if entry.1 = key then (key, entry.2 ++ [x]) :: entries else entry :: append key x entries

def group (key : α → κ) (xs : List α) : List (κ × List α) :=
  xs.foldl (fun entries x => append (key x) x entries) []

/-- Each key of the values has one entry, with the values that have it in their order. -/
structure IsGrouping (key : α → κ) (xs : List α) (entries : List (κ × List α)) : Prop where
  nodup : (entries.map Prod.fst).Nodup
  values : ∀ entry ∈ entries, entry.2 = xs.filter fun x => key x = entry.1
  covers : ∀ x ∈ xs, ∃ entry ∈ entries, entry.1 = key x
  nonempty : ∀ entry ∈ entries, entry.2 ≠ []

variable {key : α → κ} {k : κ} {x : α} {xs : List α} {entries entries' : List (κ × List α)}

/-- A value starts an entry at the end, or goes to the entry of its key. -/
theorem append_cases (k : κ) (x : α) (entries : List (κ × List α)) :
    ((∀ entry ∈ entries, entry.1 ≠ k) ∧ append k x entries = entries ++ [(k, [x])]) ∨
      ∃ before values after, entries = before ++ (k, values) :: after ∧
        append k x entries = before ++ (k, values ++ [x]) :: after := by
  induction entries with
  | nil => exact Or.inl ⟨by simp, rfl⟩
  | cons entry entries ih =>
    rw [append]
    split
    · rename_i hkey
      exact Or.inr ⟨[], entry.2, entries, by rw [← hkey]; rfl, rfl⟩
    · rename_i hkey
      rcases ih with ⟨hother, happend⟩ | ⟨before, values, after, hsplit, happend⟩
      · refine Or.inl ⟨List.forall_mem_cons.mpr ⟨hkey, hother⟩, ?_⟩
        rw [happend, List.cons_append]
      · refine Or.inr ⟨entry :: before, values, after, ?_, ?_⟩
        · rw [hsplit, List.cons_append]
        · rw [happend, List.cons_append]

theorem filter_concat_of_ne {k : κ} (h : key x ≠ k) :
    (xs ++ [x]).filter (fun x => key x = k) = xs.filter fun x => key x = k := by
  rw [List.filter_append, List.filter_singleton]
  simp [h]

theorem filter_concat (key : α → κ) (xs : List α) (x : α) :
    (xs ++ [x]).filter (fun y => key y = key x) = (xs.filter fun y => key y = key x) ++ [x] := by
  rw [List.filter_append, List.filter_singleton]
  simp

theorem IsGrouping.append (h : IsGrouping key xs entries) (x : α) :
    IsGrouping key (xs ++ [x]) (append (key x) x entries) := by
  rcases append_cases (key x) x entries with ⟨hother, happend⟩ | ⟨before, values, after, rfl, happend⟩
  · rw [happend]
    have hnone : xs.filter (fun y => key y = key x) = [] := by
      apply List.filter_eq_nil_iff.mpr
      intro y hy
      obtain ⟨entry, hentry, hkey⟩ := h.covers y hy
      simpa [← hkey] using hother entry hentry
    refine ⟨?_, ?_, ?_, ?_⟩
    · rw [List.map_append, List.nodup_append]
      refine ⟨h.nodup, List.nodup_singleton _, ?_⟩
      intro k hk k' hk'
      obtain ⟨entry, hentry, rfl⟩ := List.mem_map.mp hk
      obtain rfl := List.mem_singleton.mp hk'
      exact hother entry hentry
    · intro entry hentry
      rcases List.mem_append.mp hentry with hentry | hentry
      · rw [filter_concat_of_ne (hother entry hentry).symm]
        exact h.values entry hentry
      · obtain rfl := List.mem_singleton.mp hentry
        exact (by rw [filter_concat, hnone, List.nil_append])
    · intro y hy
      rcases List.mem_append.mp hy with hy | hy
      · obtain ⟨entry, hentry, hkey⟩ := h.covers y hy
        exact ⟨entry, List.mem_append_left _ hentry, hkey⟩
      · obtain rfl := List.mem_singleton.mp hy
        exact ⟨_, List.mem_append_right _ (List.mem_singleton_self _), rfl⟩
    · intro entry hentry
      rcases List.mem_append.mp hentry with hentry | hentry
      · exact h.nonempty entry hentry
      · obtain rfl := List.mem_singleton.mp hentry
        exact List.cons_ne_nil _ _
  · rw [happend]
    have hkeys : (before ++ (key x, values ++ [x]) :: after).map Prod.fst =
        (before ++ (key x, values) :: after).map Prod.fst := by
      rw [List.map_append, List.map_append, List.map_cons, List.map_cons]
    have hothers : ∀ entry ∈ before ++ after, entry.1 ≠ key x := by
      have hnodup := h.nodup
      rw [List.map_append, List.map_cons, List.nodup_middle, ← List.map_append] at hnodup
      intro entry hentry hkey
      exact (List.nodup_cons.mp hnodup).1 (List.mem_map.mpr ⟨entry, hentry, hkey⟩)
    have hvalues : values = xs.filter fun y => key y = key x :=
      h.values (key x, values) (List.mem_append_right _ List.mem_cons_self)
    have hmem : ∀ entry ∈ before ++ (key x, values ++ [x]) :: after,
        entry = (key x, values ++ [x]) ∨ entry ∈ before ++ after := by
      intro entry hentry
      exact List.mem_cons.mp (List.perm_middle.mem_iff.mp hentry)
    have hold : ∀ entry ∈ before ++ after, entry ∈ before ++ (key x, values) :: after :=
      fun entry hentry => List.perm_middle.mem_iff.mpr (List.mem_cons_of_mem _ hentry)
    refine ⟨by rw [hkeys]; exact h.nodup, ?_, ?_, ?_⟩
    · intro entry hentry
      rcases hmem entry hentry with rfl | hentry
      · exact (by rw [filter_concat, ← hvalues])
      · rw [filter_concat_of_ne (hothers entry hentry).symm]
        exact h.values entry (hold entry hentry)
    · intro y hy
      have hcovered : ∃ entry ∈ before ++ (key x, values) :: after, entry.1 = key y := by
        rcases List.mem_append.mp hy with hy | hy
        · exact h.covers y hy
        · obtain rfl := List.mem_singleton.mp hy
          exact ⟨_, List.mem_append_right _ List.mem_cons_self, rfl⟩
      obtain ⟨entry, hentry, hkey⟩ := hcovered
      have hk : key y ∈ (before ++ (key x, values ++ [x]) :: after).map Prod.fst := by
        rw [hkeys]
        exact List.mem_map.mpr ⟨entry, hentry, hkey⟩
      obtain ⟨entry', hentry', hkey'⟩ := List.mem_map.mp hk
      exact ⟨entry', hentry', hkey'⟩
    · intro entry hentry
      rcases hmem entry hentry with rfl | hentry
      · exact List.append_ne_nil_of_right_ne_nil _ (List.cons_ne_nil _ _)
      · exact h.nonempty entry (hold entry hentry)

theorem foldl_isGrouping (h : IsGrouping key xs entries) (ys : List α) :
    IsGrouping key (xs ++ ys)
      (ys.foldl (fun entries y => GroupedByKey.append (key y) y entries) entries) := by
  induction ys generalizing xs entries with
  | nil => rwa [List.append_nil]
  | cons y ys ih =>
    have hrest := ih (h.append y)
    rwa [List.append_assoc] at hrest

theorem isGrouping_nil (key : α → κ) : IsGrouping key [] [] :=
  ⟨List.nodup_nil, fun _ h => (by cases h), fun _ h => (by cases h), fun _ h => (by cases h)⟩

theorem group_isGrouping (key : α → κ) (xs : List α) : IsGrouping key xs (group key xs) :=
  foldl_isGrouping (isGrouping_nil key) xs

theorem IsGrouping.perm (h : IsGrouping key xs entries) (horder : entries.Perm entries') :
    IsGrouping key xs entries' where
  nodup := (horder.map Prod.fst).nodup_iff.mp h.nodup
  values entry hentry := h.values entry (horder.mem_iff.mpr hentry)
  covers x hx := by
    obtain ⟨entry, hentry, hkey⟩ := h.covers x hx
    exact ⟨entry, horder.mem_iff.mp hentry, hkey⟩
  nonempty entry hentry := h.nonempty entry (horder.mem_iff.mpr hentry)

end NumentaApps.GroupedByKey
