import Mathlib.Data.List.Flatten
import Mathlib.Data.List.Perm.Basic

/-!
# What a list of open transactions is about to add

Each transaction adds a list of keys. Ending one, or changing one, splits its keys from
those of the others.
-/
namespace NumentaApps.OpenTransactions

universe u v

variable {α : Type u} {κ : Type v} {txs : List α} {i : ℕ} {tx : α}

theorem keys_perm_eraseIdx (keys : α → List κ) (hi : txs[i]? = some tx) :
    (txs.flatMap keys).Perm (keys tx ++ (txs.eraseIdx i).flatMap keys) := by
  obtain ⟨hlt, rfl⟩ := List.getElem?_eq_some_iff.mp hi
  have hperm := (List.getElem_cons_eraseIdx_perm hlt).symm.flatMap_right keys
  rwa [List.flatMap_cons] at hperm

theorem keys_set_perm (keys : α → List κ) (hi : txs[i]? = some tx) (tx' : α) :
    ((txs.set i tx').flatMap keys).Perm (keys tx' ++ (txs.eraseIdx i).flatMap keys) := by
  obtain ⟨hlt, rfl⟩ := List.getElem?_eq_some_iff.mp hi
  have hperm := (List.set_perm_cons_eraseIdx hlt tx').flatMap_right keys
  rwa [List.flatMap_cons] at hperm

/-- A commit moves the keys of its transaction to those stored. -/
theorem keys_perm_commit (keys : α → List κ) (stored : List κ) (hi : txs[i]? = some tx) :
    (stored ++ txs.flatMap keys).Perm
      ((stored ++ keys tx) ++ (txs.eraseIdx i).flatMap keys) := by
  rw [List.append_assoc]
  exact (keys_perm_eraseIdx keys hi).append_left stored

/-- A rollback only drops keys. -/
theorem keys_sublist_rollback (keys : α → List κ) (stored : List κ) (i : ℕ) :
    (stored ++ (txs.eraseIdx i).flatMap keys).Sublist (stored ++ txs.flatMap keys) :=
  .append (.refl _) ((List.eraseIdx_sublist _ i).flatMap _)

/-! ## What is left in a list -/

theorem mem_eraseIdx_or_eq (hi : txs[i]? = some tx) {tx' : α} (h : tx' ∈ txs) :
    tx' = tx ∨ tx' ∈ txs.eraseIdx i := by
  obtain ⟨j, hj⟩ := List.getElem?_of_mem h
  by_cases hji : j = i
  · subst hji
    exact .inl (Option.some.inj (hj.symm.trans hi))
  · exact .inr (List.mem_eraseIdx_iff_getElem?.mpr ⟨j, hji, hj⟩)

theorem mem_set_or_eq (hi : txs[i]? = some tx) {tx' new : α} (h : tx' ∈ txs) :
    tx' = tx ∨ tx' ∈ txs.set i new := by
  obtain ⟨j, hj⟩ := List.getElem?_of_mem h
  by_cases hij : i = j
  · subst hij
    exact .inl (Option.some.inj (hj.symm.trans hi))
  · exact .inr (List.mem_of_getElem? ((List.getElem?_set_ne hij).trans hj))

theorem mem_set_self (hi : txs[i]? = some tx) (new : α) : new ∈ txs.set i new :=
  List.mem_set (List.getElem?_eq_some_iff.mp hi).1 new

end NumentaApps.OpenTransactions
