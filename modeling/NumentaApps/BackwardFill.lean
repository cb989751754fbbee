import Mathlib.Algebra.Order.Group.Nat
import Mathlib.Data.List.Basic
import Mathlib.Data.Int.Notation

/-!
# Filling cells from the last one on

Bars of a fixed width are written one before the other, the first of them into the last cells. What
does not fit any more is left out, and the cells that stay free keep a blank. Reading or writing
past the ends of the cells gives `none`.
-/
namespace NumentaApps.BackwardFill

universe u

variable {α β γ : Type u}

def getAt (cells : List β) (i : ℤ) : Option β :=
  if 0 ≤ i then cells[i.toNat]? else none

def setAt (cells : List β) (i : ℤ) (x : β) : Option (List β) :=
  if 0 ≤ i ∧ i < cells.length then some (cells.set i.toNat x) else none

/-- The cells from `start` to before `stop`. -/
def subList (cells : List β) (start stop : ℤ) : Option (List β) :=
  if 0 ≤ start ∧ start ≤ stop ∧ stop ≤ cells.length then
    some ((cells.drop start.toNat).take (stop - start).toNat)
  else none

/-- Cells of which those before `size` are free. -/
structure Fill (β : Type u) where
  size : ℤ
  cells : List β

/-- Copies cells of the source, from index `i` down, as long as there is space. -/
def copyBack (source : List β) : ℕ → ℤ → Fill β → Option (Fill β)
  | 0, _, s => some s
  | n + 1, i, s =>
    if 0 < s.size then do
      let x ← getAt source i
      let cells ← setAt s.cells (s.size - 1) x
      copyBack source n (i - 1) ⟨s.size - 1, cells⟩
    else some s

section

variable (width : ℕ) (blank : β) (render : α → List β) (mark : α → Option γ)

/-- The cells of `m` bars. -/
def rendered : ℕ → List α → List β
  | 0, _ => []
  | m + 1, [] => List.replicate (width * (m + 1)) blank
  | m + 1, bar :: bars => rendered m bars ++ render bar

/-- What is marked at the first cells of bars, from the last bar on. -/
def marks : ℕ → List α → List (ℕ × γ)
  | 0, _ => []
  | _ + 1, [] => []
  | m + 1, bar :: bars => ((mark bar).map fun c => (width * m, c)).toList ++ marks m bars

end

variable {width : ℕ} {blank : β} {render : α → List β} {mark : α → Option γ} {bars : List α}

theorem getAt_natCast (cells : List β) (i : ℕ) : getAt cells (i : ℤ) = cells[i]? := by
  rw [getAt, if_pos (Int.natCast_nonneg i), Int.toNat_natCast]

theorem setAt_natCast {cells : List β} {i : ℕ} (h : i < cells.length) (x : β) :
    setAt cells (i : ℤ) x = some (cells.set i x) := by
  rw [setAt, if_pos ⟨Int.natCast_nonneg i, Int.ofNat_lt.mpr h⟩, Int.toNat_natCast]

theorem setAt_length {cells cells' : List β} {i : ℤ} {x : β} (h : setAt cells i x = some cells') :
    cells'.length = cells.length := by
  have hset := (Option.ite_none_right_eq_some.mp h).2
  rw [← Option.some.inj hset, List.length_set]

theorem subList_natCast {cells : List β} {start count : ℕ} (h : start + count ≤ cells.length) :
    subList cells (start : ℤ) (start + count : ℕ) = some ((cells.drop start).take count) := by
  rw [subList, if_pos (by omega), Int.toNat_natCast]
  congr 2
  omega

/-- The last free cell is written. -/
theorem set_last (n : ℕ) (x : β) (tail : List β) :
    (List.replicate (n + 1) blank ++ tail).set n x = List.replicate n blank ++ x :: tail := by
  rw [List.replicate_succ', List.append_assoc, List.set_append_right _ _ (by simp)]
  simp

theorem copyBack_spec {source : List β} {start : ℕ} (n free : ℕ) (tail : List β)
    (h : start + n ≤ source.length) :
    copyBack source n ((start + n : ℕ) - 1) ⟨(free + n : ℕ), List.replicate (free + n) blank ++ tail⟩ =
      some ⟨free, List.replicate free blank ++ ((source.drop start).take n ++ tail)⟩ := by
  induction n generalizing tail with
  | zero => rfl
  | succ n ih =>
    obtain ⟨x, hx⟩ : ∃ x, source[start + n]? = some x :=
      ⟨_, List.getElem?_eq_getElem (by omega)⟩
    have hlast : (source.drop start).take (n + 1) = (source.drop start).take n ++ [x] := by
      rw [List.take_add_one, List.getElem?_drop, hx]
      rfl
    have hindex : ((start + (n + 1) : ℕ) : ℤ) - 1 = (start + n : ℕ) := by omega
    have hsize : ((free + (n + 1) : ℕ) : ℤ) - 1 = (free + n : ℕ) := by omega
    have hfree : (0 : ℤ) < (free + (n + 1) : ℕ) := by omega
    simp only [copyBack, hindex, hsize, if_pos hfree, getAt_natCast, hx, Option.bind_eq_bind,
      Option.bind_some]
    rw [setAt_natCast (by simp; omega), Option.bind_some, ← Nat.add_assoc, set_last,
      ih _ (by omega), hlast, List.append_assoc]
    rfl

theorem copyBack_of_full {source : List β} {n : ℕ} {i : ℤ} {s : Fill β} (h : s.size ≤ 0) :
    copyBack source n i s = some s := by
  cases n with
  | zero => rfl
  | succ n => rw [copyBack, if_neg (by omega)]

theorem rendered_nil (m : ℕ) :
    rendered width blank render m [] = List.replicate (width * m) blank := by
  cases m with
  | zero => rfl
  | succ m => rfl

theorem rendered_length (h : ∀ bar ∈ bars, (render bar).length = width) (m : ℕ) :
    (rendered width blank render m bars).length = width * m := by
  induction bars generalizing m with
  | nil => rw [rendered_nil, List.length_replicate]
  | cons bar bars ih =>
    cases m with
    | zero => rfl
    | succ m =>
      rw [rendered, List.length_append, ih (fun bar' hbar => h bar' (List.mem_cons_of_mem bar hbar)),
        h bar List.mem_cons_self]
      rfl

/-- The bar at place `j` from the end has the cells from `width * (m - 1 - j)` on. -/
theorem getElem?_rendered {j m i : ℕ} {bar : α} (h : ∀ bar ∈ bars, (render bar).length = width)
    (hbar : bars[j]? = some bar) (hplace : j < m) (hi : i < width) :
    (rendered width blank render m bars)[width * (m - 1 - j) + i]? = (render bar)[i]? := by
  induction bars generalizing m j with
  | nil => simp at hbar
  | cons bar' bars ih =>
    have hrest := fun bar hbar => h bar (List.mem_cons_of_mem bar' hbar)
    obtain ⟨m, rfl⟩ : ∃ n, m = n + 1 := ⟨m - 1, by omega⟩
    rw [rendered]
    cases j with
    | zero =>
      rw [Option.some.inj hbar, List.getElem?_append_right (by rw [rendered_length hrest]; simp),
        rendered_length hrest]
      simp
    | succ j =>
      have hm : m + 1 - 1 - (j + 1) = m - 1 - j := by omega
      have hlt : width * (m - 1 - j) + i < width * m := by
        have hsplit : width * m = width * (m - 1 - j) + width * (j + 1) := by
          rw [← Nat.mul_add]
          congr 1
          omega
        have hle : width ≤ width * (j + 1) := Nat.le_mul_of_pos_right width (by omega)
        omega
      rw [hm, List.getElem?_append_left (by rwa [rendered_length hrest])]
      exact ih hrest hbar (by omega)

theorem mem_marks {m i : ℕ} {c : γ} : (i, c) ∈ marks width mark m bars ↔
    ∃ j bar, j < m ∧ bars[j]? = some bar ∧ mark bar = some c ∧ i = width * (m - 1 - j) := by
  induction bars generalizing m with
  | nil => cases m <;> simp [marks]
  | cons bar bars ih =>
    cases m with
    | zero => simp [marks]
    | succ m =>
      rw [marks, List.mem_append, ih]
      constructor
      · rintro (hhead | ⟨j, bar', hj, hbar, hmark, rfl⟩)
        · obtain ⟨c', hc, heq⟩ := Option.map_eq_some_iff.mp (Option.mem_toList.mp hhead)
          cases heq
          exact ⟨0, bar, by omega, rfl, hc, by simp⟩
        · exact ⟨j + 1, bar', by omega, hbar, hmark, by congr 1; omega⟩
      · rintro ⟨j, bar', hj, hbar, hmark, rfl⟩
        cases j with
        | zero =>
          cases hbar
          left
          simp [hmark]
        | succ j =>
          right
          exact ⟨j, bar', by omega, hbar, hmark, by congr 1; omega⟩

theorem marks_descending (hwidth : 0 < width) (m : ℕ) :
    ((marks width mark m bars).map Prod.fst).Pairwise (· > ·) := by
  induction bars generalizing m with
  | nil => cases m <;> exact List.Pairwise.nil
  | cons bar bars ih =>
    cases m with
    | zero => exact List.Pairwise.nil
    | succ m =>
      have hbelow : ∀ i ∈ (marks width mark m bars).map Prod.fst, i < width * m := by
        intro i hi
        obtain ⟨⟨i, c⟩, hmark, rfl⟩ := List.mem_map.mp hi
        obtain ⟨j, bar', hj, -, -, rfl⟩ := mem_marks.mp hmark
        exact Nat.mul_lt_mul_of_pos_left (by omega) hwidth
      cases hmark : mark bar with
      | none => simpa [marks, hmark] using ih m
      | some c => simpa [marks, hmark] using ⟨by simpa using hbelow, ih m⟩

end NumentaApps.BackwardFill
