import Mathlib.Data.List.Basic
import Mathlib.Order.Lattice

/-!
# Maps with ranges of keys

A map whose entries are kept in the order of their keys, so that a range of keys is read in
that order. `Holds` says what a map holds in terms of the things that its keys stand for.
-/
namespace NumentaApps.KeyRange

universe u v w

/-- The entries of a map, each key once. -/
structure OrderedMap (K : Type u) (V : Type v) [LinearOrder K] where
  entries : List (K × V)
  sorted : entries.Pairwise fun e e' => e.1 < e'.1

namespace OrderedMap

variable {K : Type u} {V : Type v} [LinearOrder K] {map : OrderedMap K V} {k k' : K} {v : V}
  {e : K × V}

def empty : OrderedMap K V := ⟨[], .nil⟩

def filter (p : K → Bool) (map : OrderedMap K V) : OrderedMap K V :=
  ⟨map.entries.filter fun e => p e.1, map.sorted.filter _⟩

def del (k : K) (map : OrderedMap K V) : OrderedMap K V := map.filter fun k' => k' ≠ k

def delAll (keys : List K) (map : OrderedMap K V) : OrderedMap K V :=
  keys.foldl (fun map k => map.del k) map

/-- The entries with keys from a lower bound on and below an upper one. -/
def range (gte lt : K) (map : OrderedMap K V) : List (K × V) :=
  map.entries.filter fun e => gte ≤ e.1 ∧ e.1 < lt

def put (k : K) (v : V) (map : OrderedMap K V) : OrderedMap K V where
  entries := (map.entries.filter fun e => e.1 < k) ++
    (k, v) :: map.entries.filter fun e => k < e.1
  sorted := by
    have hbelow : ∀ e ∈ map.entries.filter fun e => e.1 < k, e.1 < k :=
      fun e he => of_decide_eq_true (List.mem_filter.mp he).2
    have habove : ∀ e ∈ map.entries.filter fun e => k < e.1, k < e.1 :=
      fun e he => of_decide_eq_true (List.mem_filter.mp he).2
    refine List.pairwise_append.mpr ⟨map.sorted.filter _,
      List.pairwise_cons.mpr ⟨habove, map.sorted.filter _⟩, fun e he e' he' => ?_⟩
    rcases List.mem_cons.mp he' with rfl | hmem
    · exact hbelow e he
    · exact lt_trans (hbelow e he) (habove e' hmem)

theorem mem_filter {p : K → Bool} :
    e ∈ (map.filter p).entries ↔ e ∈ map.entries ∧ p e.1 := List.mem_filter

theorem mem_del : e ∈ (map.del k).entries ↔ e ∈ map.entries ∧ e.1 ≠ k := by
  rw [del, mem_filter, decide_eq_true_eq]

theorem mem_delAll {keys : List K} :
    e ∈ (map.delAll keys).entries ↔ e ∈ map.entries ∧ e.1 ∉ keys := by
  induction keys generalizing map with
  | nil => simp only [delAll, List.foldl_nil, List.not_mem_nil, not_false_eq_true, and_true]
  | cons k keys ih =>
    rw [delAll, List.foldl_cons, ← delAll, ih, mem_del, List.mem_cons, not_or, and_assoc]

theorem mem_put : e ∈ (map.put k v).entries ↔ e = (k, v) ∨ (e ∈ map.entries ∧ e.1 ≠ k) := by
  simp only [put, List.mem_append, List.mem_cons, List.mem_filter, decide_eq_true_eq]
  constructor
  · rintro (⟨he, hlt⟩ | rfl | ⟨he, hlt⟩)
    · exact .inr ⟨he, ne_of_lt hlt⟩
    · exact .inl rfl
    · exact .inr ⟨he, ne_of_gt hlt⟩
  · rintro (rfl | ⟨he, hne⟩)
    · exact .inr (.inl rfl)
    · rcases lt_or_gt_of_ne hne with hlt | hgt
      · exact .inl ⟨he, hlt⟩
      · exact .inr (.inr ⟨he, hgt⟩)

theorem mem_range {gte lt : K} :
    e ∈ map.range gte lt ↔ e ∈ map.entries ∧ gte ≤ e.1 ∧ e.1 < lt := by
  rw [range, List.mem_filter, decide_eq_true_eq]

theorem range_sorted (gte lt : K) (map : OrderedMap K V) :
    (map.range gte lt).Pairwise fun e e' => e.1 < e'.1 := map.sorted.filter _

end OrderedMap

/-- A list of images is the image of a list. -/
theorem exists_map_eq {α : Type u} {β : Type v} {f : α → β} {P : α → Prop} {l : List β}
    (h : ∀ b ∈ l, ∃ a, P a ∧ f a = b) : ∃ l' : List α, (∀ a ∈ l', P a) ∧ l'.map f = l := by
  induction l with
  | nil => exact ⟨[], fun _ ha => (by cases ha), rfl⟩
  | cons b l ih =>
    obtain ⟨a, ha, rfl⟩ := h b List.mem_cons_self
    obtain ⟨l', hl', rfl⟩ := ih fun b hb => h b (List.mem_cons_of_mem _ hb)
    exact ⟨a :: l', List.forall_mem_cons.mpr ⟨ha, hl'⟩, rfl⟩

/-! ## What a map holds -/

section Holds

variable {K : Type u} {V : Type v} [LinearOrder K] {ι : Type w} {key : ι → K}
  {held : ι → Option V} {map : OrderedMap K V}

/-- The entries of a map are those of the things held, each under its key. -/
def Holds (key : ι → K) (map : OrderedMap K V) (held : ι → Option V) : Prop :=
  ∀ e, e ∈ map.entries ↔ ∃ x, key x = e.1 ∧ held x = some e.2

theorem holds_empty : Holds key (.empty : OrderedMap K V) fun _ => none := by
  intro e
  constructor
  · intro he
    cases he
  · rintro ⟨x, -, hx⟩
    cases hx

theorem Holds.mem (h : Holds key map held) {x : ι} {v : V} (hx : held x = some v) :
    (key x, v) ∈ map.entries := (h (key x, v)).mpr ⟨x, rfl, hx⟩

theorem Holds.put [DecidableEq ι] (h : Holds key map held) (x : ι) (v : V)
    (hkey : ∀ y, (held y).isSome → key y = key x → y = x) :
    Holds key (map.put (key x) v) (Function.update held x (some v)) := by
  intro e
  rw [OrderedMap.mem_put]
  constructor
  · rintro (rfl | ⟨he, hne⟩)
    · exact ⟨x, rfl, Function.update_self ..⟩
    · obtain ⟨y, hy, hheld⟩ := (h e).mp he
      refine ⟨y, hy, ?_⟩
      rw [Function.update_of_ne, hheld]
      rintro rfl
      exact hne hy.symm
  · rintro ⟨y, hy, hheld⟩
    by_cases hyx : y = x
    · rw [hyx, Function.update_self, Option.some.injEq] at hheld
      exact .inl (Prod.ext (hyx ▸ hy).symm hheld.symm)
    · rw [Function.update_of_ne hyx] at hheld
      refine .inr ⟨(h e).mpr ⟨y, hy, hheld⟩, fun he => hyx ?_⟩
      exact hkey y (Option.isSome_of_eq_some hheld) (hy.trans he)

/-- What is left where some keys are taken out. -/
theorem Holds.remove (h : Holds key map held) {map' : OrderedMap K V} {p : K → Prop}
    {q : ι → Prop} [DecidablePred q]
    (hmap : ∀ e, e ∈ map'.entries ↔ e ∈ map.entries ∧ ¬ p e.1)
    (hp : ∀ x, (held x).isSome → (p (key x) ↔ q x)) :
    Holds key map' fun x => if q x then none else held x := by
  intro e
  rw [hmap, h e]
  constructor
  · rintro ⟨⟨x, hx, hheld⟩, hnot⟩
    rw [← hx, hp x (Option.isSome_of_eq_some hheld)] at hnot
    exact ⟨x, hx, (if_neg hnot).trans hheld⟩
  · rintro ⟨x, hx, hheld⟩
    change (if q x then none else held x) = some e.2 at hheld
    by_cases hq : q x
    · rw [if_pos hq] at hheld
      cases hheld
    · rw [if_neg hq] at hheld
      refine ⟨⟨x, hx, hheld⟩, ?_⟩
      rwa [← hx, hp x (Option.isSome_of_eq_some hheld)]

/-- A range of keys that is part of a sequence is read in the order of the sequence. -/
theorem Holds.read {J : Type w} [LinearOrder J] (h : Holds key map held) {gte lt : K}
    {part : J → ι} {P : J → Prop}
    (hpart : ∀ x, (held x).isSome → gte ≤ key x → key x < lt → ∃ j, part j = x)
    (hrange : ∀ j, (held (part j)).isSome → (gte ≤ key (part j) ∧ key (part j) < lt ↔ P j))
    (horder : ∀ i j, (held (part i)).isSome → (held (part j)).isSome →
      (key (part i) < key (part j) ↔ i < j)) :
    ∃ read : List (J × V), read.map Prod.snd = (map.range gte lt).map Prod.snd ∧
      (read.Pairwise fun p q => p.1 < q.1) ∧
      ∀ j v, (j, v) ∈ read ↔ P j ∧ held (part j) = some v := by
  have hentries : ∀ e ∈ map.range gte lt, ∃ p : J × V,
      held (part p.1) = some p.2 ∧ (key (part p.1), p.2) = e := by
    intro e he
    obtain ⟨hmem, hgte, hlt⟩ := OrderedMap.mem_range.mp he
    obtain ⟨x, hx, hheld⟩ := (h e).mp hmem
    obtain ⟨j, rfl⟩ := hpart x (Option.isSome_of_eq_some hheld) (hx ▸ hgte) (hx ▸ hlt)
    exact ⟨(j, e.2), hheld, Prod.ext hx rfl⟩
  obtain ⟨read, hheld, hread⟩ := exists_map_eq hentries
  have hmem : ∀ p ∈ read, (key (part p.1), p.2) ∈ map.range gte lt :=
    fun p hp => hread ▸ List.mem_map_of_mem hp
  refine ⟨read, ?_, ?_, fun j v => ⟨fun hp => ?_, fun ⟨hP, hv⟩ => ?_⟩⟩
  · rw [← hread, List.map_map]
    rfl
  · have hsorted := map.range_sorted gte lt
    rw [← hread, List.pairwise_map] at hsorted
    refine hsorted.imp_of_mem fun {p q} hp hq hlt => ?_
    exact (horder p.1 q.1 (Option.isSome_of_eq_some (hheld p hp))
      (Option.isSome_of_eq_some (hheld q hq))).mp hlt
  · have hv := hheld (j, v) hp
    exact ⟨(hrange j (Option.isSome_of_eq_some hv)).mp (OrderedMap.mem_range.mp (hmem _ hp)).2, hv⟩
  · have hsome := Option.isSome_of_eq_some hv
    have hin : (key (part j), v) ∈ read.map fun p => (key (part p.1), p.2) :=
      hread ▸ OrderedMap.mem_range.mpr ⟨h.mem hv, (hrange j hsome).mpr hP⟩
    obtain ⟨p, hp, heq⟩ := List.mem_map.mp hin
    have hpsome := Option.isSome_of_eq_some (hheld p hp)
    have hkey : key (part p.1) = key (part j) := congrArg Prod.fst heq
    have hj : p.1 = j := by
      apply le_antisymm
      · refine not_lt.mp fun hlt => ?_
        exact absurd ((horder j p.1 hsome hpsome).mpr hlt) (hkey ▸ lt_irrefl _)
      · refine not_lt.mp fun hlt => ?_
        exact absurd ((horder p.1 j hpsome hsome).mpr hlt) (hkey ▸ lt_irrefl _)
    have hv : p.2 = v := congrArg Prod.snd heq
    have hpv : p = (j, v) := Prod.ext hj hv
    exact hpv ▸ hp

end Holds

end NumentaApps.KeyRange
