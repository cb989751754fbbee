import Mathlib.Data.List.Sort

/-!
# Pages of a table in the order of a key

`page` is what a query with a lower bound on the key, an order by the key and a limit
returns. With distinct keys a page has every row up to its last one, so that a reader
may go on after the last key it has seen.
-/
namespace NumentaApps.KeysetPage

universe u

variable {α : Type u} (key : α → ℕ)

def page (minKey limit : ℕ) (rows : List α) : List α :=
  ((rows.filter fun r => minKey ≤ key r).insertionSort fun a b => key a ≤ key b).take limit

variable {key} {minKey limit : ℕ} {rows : List α}

theorem page_mem {r : α} (h : r ∈ page key minKey limit rows) : r ∈ rows ∧ minKey ≤ key r := by
  have hr := List.mem_of_mem_take h
  rw [List.mem_insertionSort] at hr
  simpa using List.mem_filter.mp hr

theorem page_sorted (key : α → ℕ) (minKey limit : ℕ) (rows : List α) :
    (page key minKey limit rows).Pairwise fun a b => key a ≤ key b := by
  have : Std.Total fun a b : α => key a ≤ key b := ⟨fun a b => Nat.le_total _ _⟩
  have : IsTrans α fun a b => key a ≤ key b := ⟨fun a b c => Nat.le_trans⟩
  apply List.Pairwise.sublist (List.take_sublist _ _)
  exact List.pairwise_insertionSort _ _

theorem page_le_last {last r : α} (hlast : (page key minKey limit rows).getLast? = some last)
    (h : r ∈ page key minKey limit rows) : key r ≤ key last := by
  obtain ⟨front, hfront⟩ := List.getLast?_eq_some_iff.mp hlast
  have hsorted := page_sorted key minKey limit rows
  rw [hfront] at hsorted h
  rcases List.mem_append.mp h with h | h
  · exact (List.pairwise_append.mp hsorted).2.2 r h last (List.mem_singleton_self _)
  · rw [List.mem_singleton.mp h]

/-- No row up to the last one of a page is left out. -/
theorem mem_page_of_le_last {last r : α} (hnd : (rows.map key).Nodup)
    (hlast : (page key minKey limit rows).getLast? = some last) (hr : r ∈ rows)
    (hmin : minKey ≤ key r) (hle : key r ≤ key last) : r ∈ page key minKey limit rows := by
  have htotal : Std.Total fun a b : α => key a ≤ key b := ⟨fun a b => Nat.le_total _ _⟩
  have htrans : IsTrans α fun a b => key a ≤ key b := ⟨fun a b c => Nat.le_trans⟩
  have hin : last ∈ page key minKey limit rows := List.mem_of_getLast? hlast
  have hsorted := List.pairwise_insertionSort (fun a b => key a ≤ key b)
    (rows.filter fun r => minKey ≤ key r)
  have hmem : r ∈ (rows.filter fun r => minKey ≤ key r).insertionSort
      fun a b => key a ≤ key b := by
    rw [List.mem_insertionSort, List.mem_filter]
    exact ⟨hr, by simpa using hmin⟩
  rw [← List.take_append_drop limit (List.insertionSort _ _)] at hsorted hmem
  rcases List.mem_append.mp hmem with h | h
  · exact h
  · -- A row beyond the limit is at least as far as the last one, so it is the last one.
    have hge := (List.pairwise_append.mp hsorted).2.2 last hin r h
    have heq : r = last :=
      List.inj_on_of_nodup_map hnd hr (page_mem hin).1 (Nat.le_antisymm hle hge)
    exact heq ▸ hin

end NumentaApps.KeysetPage
