import Mathlib.Data.List.Basic
import Mathlib.Data.Nat.Notation

/-!
# Delivery to a callback

Rows are handed to a callback one by one until it returns false. It may answer according to all rows
that it has been given. Pages are delivered one after the other, each of them until the callback
returns false.
-/
namespace NumentaApps.CallbackDelivery

universe u

variable {α : Type u} (callback : List α → Bool)

/-- What the callback has been given after more rows. -/
def deliver (done : List α) : List α → List α
  | [] => done
  | x :: xs => if callback (done ++ [x]) then deliver (done ++ [x]) xs else done ++ [x]

def stops (done : List α) : List α → Bool
  | [] => false
  | x :: xs => !callback (done ++ [x]) || stops (done ++ [x]) xs

def deliverPages (done : List α) : List (List α) → List α
  | [] => done
  | page :: pages => deliverPages (deliver callback done page) pages

/-- Rows in pages of given sizes, and a last one. -/
def paginate : List ℕ → List α → List (List α)
  | [], rows => [rows]
  | size :: sizes, rows => rows.take size :: paginate sizes (rows.drop size)

/-- No page after the one in which the callback stops has rows. -/
def StopsLast (done : List α) : List (List α) → Prop
  | [] => True
  | page :: pages =>
    if stops callback done page then pages.flatten = [] else StopsLast (done ++ page) pages

/-- The rows are delivered in their order, up to and including the one at which the callback returns
false, and none after it. -/
structure Delivered (rows out : List α) : Prop where
  isPrefix : out <+: rows
  continued : ∀ front, front <+: out → front ≠ [] → front ≠ out → callback front = true
  ends : out = rows ∨ (out ≠ [] ∧ callback out = false)

variable {callback} {done l l' rows out : List α} {x : α}

theorem deliver_shift (done l : List α) :
    deliver callback done l = done ++ deliver (fun l => callback (done ++ l)) [] l := by
  induction l generalizing done callback with
  | nil => exact (List.append_nil done).symm
  | cons x l ih =>
    simp only [deliver, List.nil_append]
    split
    · rw [ih (done ++ [x]), @ih (fun l => callback (done ++ l)) [x]]
      simp only [List.append_assoc]
    · rfl

theorem deliver_cons (x : α) (l : List α) : deliver callback [] (x :: l) =
    x :: if callback [x] then deliver (fun l => callback (x :: l)) [] l else [] := by
  simp only [deliver, List.nil_append]
  split
  · exact deliver_shift [x] l
  · rfl

theorem deliver_isPrefix (l : List α) : deliver callback [] l <+: l := by
  induction l generalizing callback with
  | nil => exact List.prefix_refl _
  | cons x l ih =>
    rw [deliver_cons]
    split
    · exact (List.prefix_cons_inj x).mpr ih
    · exact (List.prefix_cons_inj x).mpr List.nil_prefix

theorem delivered_cons_iff (h : callback [x] = true) :
    Delivered callback (x :: l) (x :: out) ↔ Delivered (fun l => callback (x :: l)) l out := by
  constructor
  · intro ⟨hbegins, hcontinued, hends⟩
    refine ⟨(List.prefix_cons_inj x).mp hbegins, fun front hfront _ hother => ?_, ?_⟩
    · exact hcontinued _ ((List.prefix_cons_inj x).mpr hfront) (List.cons_ne_nil _ _)
        fun heq => hother (List.cons.inj heq).2
    · rcases hends with heq | ⟨_, hstop⟩
      · exact .inl (List.cons.inj heq).2
      · refine .inr ⟨?_, hstop⟩
        rintro rfl
        rw [h] at hstop
        cases hstop
  · intro ⟨hbegins, hcontinued, hends⟩
    refine ⟨(List.prefix_cons_inj x).mpr hbegins, fun front hfront hne hother => ?_, ?_⟩
    · cases front with
      | nil => exact absurd rfl hne
      | cons y front =>
        obtain ⟨rfl, hrest⟩ := List.cons_prefix_cons.mp hfront
        by_cases hnil : front = []
        · rw [hnil]
          exact h
        · exact hcontinued front hrest hnil fun heq => hother (congrArg (y :: ·) heq)
    · rcases hends with heq | ⟨_, hstop⟩
      · exact .inl (congrArg (x :: ·) heq)
      · exact .inr ⟨List.cons_ne_nil _ _, hstop⟩

/-- What is delivered is determined by the rows and the callback. -/
theorem delivered_iff : Delivered callback rows out ↔ out = deliver callback [] rows := by
  induction rows generalizing callback out with
  | nil =>
    constructor
    · intro h
      exact List.prefix_nil.mp h.isPrefix
    · rintro rfl
      exact ⟨List.prefix_refl _, fun front hfront hne _ => absurd (List.prefix_nil.mp hfront) hne,
        .inl rfl⟩
  | cons x rows ih =>
    rw [deliver_cons]
    cases out with
    | nil =>
      refine iff_of_false (fun h => ?_) (List.cons_ne_nil _ _).symm
      rcases h.ends with heq | ⟨hne, _⟩
      · cases heq
      · exact hne rfl
    | cons y out =>
      by_cases hxy : y = x
      · subst hxy
        by_cases hcallback : callback [y] = true
        · rw [delivered_cons_iff hcallback, ih, if_pos hcallback, List.cons.injEq]
          exact (and_iff_right rfl).symm
        · rw [if_neg hcallback, List.cons.injEq, and_iff_right rfl]
          constructor
          · intro h
            by_contra hne
            exact hcallback (h.continued [y] ((List.prefix_cons_inj y).mpr List.nil_prefix)
              (List.cons_ne_nil _ _) fun heq => hne (List.cons.inj heq).2.symm)
          · rintro rfl
            refine ⟨(List.prefix_cons_inj y).mpr List.nil_prefix, fun front hfront hne hother => ?_,
              .inr ⟨List.cons_ne_nil _ _, Bool.eq_false_iff.mpr hcallback⟩⟩
            rcases List.prefix_cons_iff.mp hfront with rfl | ⟨front', rfl, hfront'⟩
            · exact absurd rfl hne
            · exact absurd (congrArg (y :: ·) (List.prefix_nil.mp hfront')) hother
      · refine iff_of_false (fun h => ?_) fun heq => hxy (List.cons.inj heq).1
        exact hxy (List.cons_prefix_cons.mp h.isPrefix).1

/-! ### Pages -/

theorem flatten_paginate (sizes : List ℕ) (rows : List α) : (paginate sizes rows).flatten = rows := by
  induction sizes generalizing rows with
  | nil => exact List.append_nil rows
  | cons size sizes ih => rw [paginate, List.flatten_cons, ih, List.take_append_drop]

theorem deliver_append_of_continued (h : stops callback done l = false) :
    deliver callback done (l ++ l') = deliver callback (done ++ l) l' := by
  induction l generalizing done with
  | nil => rw [List.nil_append, List.append_nil]
  | cons x l ih =>
    obtain ⟨hx, hl⟩ := Bool.or_eq_false_iff.mp h
    rw [Bool.not_eq_false'] at hx
    rw [List.cons_append, deliver, if_pos hx, ih hl, List.append_assoc]
    rfl

theorem deliver_of_continued (h : stops callback done l = false) :
    deliver callback done l = done ++ l := by
  have happend := @deliver_append_of_continued _ _ _ _ [] h
  rwa [List.append_nil] at happend

theorem deliver_append_of_stops (h : stops callback done l = true) :
    deliver callback done (l ++ l') = deliver callback done l := by
  induction l generalizing done with
  | nil => cases h
  | cons x l ih =>
    rw [List.cons_append, deliver, deliver]
    split
    · next hx =>
      rw [stops, hx] at h
      exact ih (by simpa using h)
    · rfl

/-- Every page with a row delivers one. -/
theorem length_deliver (done l : List α) :
    done.length + (if l = [] then 0 else 1) ≤ (deliver callback done l).length := by
  cases l with
  | nil => exact Nat.le_refl _
  | cons x l =>
    rw [deliver_shift, List.length_append, deliver_cons, List.length_cons,
      if_neg (List.cons_ne_nil x l)]
    omega

theorem length_deliverPages (done : List α) (pages : List (List α)) :
    done.length + (if pages.flatten = [] then 0 else 1) ≤ (deliverPages callback done pages).length := by
  induction pages generalizing done with
  | nil => exact Nat.le_refl _
  | cons page pages ih =>
    have hpage := @length_deliver _ callback done page
    have hpages := ih (deliver callback done page)
    rw [deliverPages, List.flatten_cons]
    by_cases hnil : page = []
    · rw [if_pos hnil] at hpage
      rw [hnil, List.nil_append]
      rw [hnil] at hpages
      exact hpages
    · rw [if_neg hnil] at hpage
      rw [if_neg (List.append_ne_nil_of_left_ne_nil hnil _)]
      omega

theorem deliverPages_of_flatten {pages : List (List α)} (h : pages.flatten = []) :
    deliverPages callback done pages = done := by
  induction pages with
  | nil => rfl
  | cons page pages ih =>
    obtain ⟨hpage, hpages⟩ := List.append_eq_nil_iff.mp h
    rw [deliverPages, hpage]
    exact ih hpages

/-- The pages deliver what their rows in one would, exactly if the callback stops in the last of
them. -/
theorem deliverPages_eq_iff (done : List α) (pages : List (List α)) :
    deliverPages callback done pages = deliver callback done pages.flatten ↔
      StopsLast callback done pages := by
  induction pages generalizing done with
  | nil => exact iff_of_true rfl trivial
  | cons page pages ih =>
    rw [deliverPages, List.flatten_cons, StopsLast]
    by_cases hstops : stops callback done page = true
    · rw [if_pos hstops, deliver_append_of_stops hstops]
      constructor
      · intro heq
        by_contra hne
        have hlength := @length_deliverPages _ callback (deliver callback done page) pages
        rw [heq, if_neg hne] at hlength
        omega
      · exact deliverPages_of_flatten
    · have hcontinued := Bool.eq_false_iff.mpr hstops
      rw [if_neg hstops, deliver_append_of_continued hcontinued, deliver_of_continued hcontinued]
      exact ih _

theorem stops_append (l l' : List α) : stops callback done (l ++ l') =
    (stops callback done l || stops callback (done ++ l) l') := by
  induction l generalizing done with
  | nil => rw [List.append_nil]; rfl
  | cons x l ih => simp only [List.cons_append, stops, ih, Bool.or_assoc, List.append_assoc,
      List.nil_append]

theorem stopsLast_of_continued {pages : List (List α)} (h : stops callback done pages.flatten = false) :
    StopsLast callback done pages := by
  induction pages generalizing done with
  | nil => trivial
  | cons page pages ih =>
    rw [List.flatten_cons, stops_append, Bool.or_eq_false_iff] at h
    rw [StopsLast, h.1]
    exact ih h.2

theorem callback_deliver (h : stops callback done l = true) :
    callback (deliver callback done l) = false := by
  induction l generalizing done with
  | nil => cases h
  | cons x l ih =>
    rw [deliver]
    split
    · next hx =>
      rw [stops, hx] at h
      exact ih (by simpa using h)
    · next hx => exact Bool.eq_false_iff.mpr hx

theorem isPrefix_deliverPages (done : List α) (pages : List (List α)) :
    done <+: deliverPages callback done pages := by
  induction pages generalizing done with
  | nil => exact List.prefix_refl _
  | cons page pages ih =>
    refine List.IsPrefix.trans ?_ (ih (deliver callback done page))
    rw [deliver_shift]
    exact List.prefix_append _ _

theorem deliver_isPrefix_deliverPages (done : List α) (pages : List (List α)) :
    deliver callback done pages.flatten <+: deliverPages callback done pages := by
  induction pages generalizing done with
  | nil => exact List.prefix_refl _
  | cons page pages ih =>
    rw [deliverPages, List.flatten_cons]
    by_cases hstops : stops callback done page = true
    · rw [deliver_append_of_stops hstops]
      exact isPrefix_deliverPages _ _
    · have hcontinued := Bool.eq_false_iff.mpr hstops
      rw [deliver_append_of_continued hcontinued, deliver_of_continued hcontinued]
      exact ih _

/-- The pages deliver what other rows would, exactly if their own rows would and the callback stops in
the last of them. -/
theorem deliverPages_eq_deliver_iff (pages : List (List α)) (rows : List α) :
    deliverPages callback [] pages = deliver callback [] rows ↔
      deliver callback [] pages.flatten = deliver callback [] rows ∧ StopsLast callback [] pages := by
  constructor
  · intro heq
    have hsame : deliver callback [] pages.flatten = deliver callback [] rows := by
      by_cases hstops : stops callback [] pages.flatten = true
      · have hbegins := @deliver_isPrefix_deliverPages _ callback [] pages
        rw [heq] at hbegins
        have hdelivered : Delivered callback rows (deliver callback [] rows) := delivered_iff.mpr rfl
        by_contra hne
        have hstopped := callback_deliver hstops
        have hnonempty : deliver callback [] pages.flatten ≠ [] := by
          have hlength := @length_deliver _ callback [] pages.flatten
          rw [if_neg (by
            intro hnil
            rw [hnil] at hstops
            cases hstops)] at hlength
          exact List.ne_nil_of_length_pos (by omega)
        rw [hdelivered.continued _ hbegins hnonempty hne] at hstopped
        cases hstopped
      · rw [← heq]
        exact ((deliverPages_eq_iff _ _).mpr (stopsLast_of_continued (Bool.eq_false_iff.mpr hstops))).symm
    exact ⟨hsame, (deliverPages_eq_iff _ _).mp (heq.trans hsame.symm)⟩
  · intro ⟨hsame, hlast⟩
    rw [(deliverPages_eq_iff _ _).mpr hlast, hsame]

/-- A selection of the rows delivers the same, exactly if it holds all that is delivered. -/
theorem deliver_filter_iff (p : α → Bool) (rows : List α) :
    deliver callback [] (rows.filter p) = deliver callback [] rows ↔
      ∀ x ∈ deliver callback [] rows, p x = true := by
  constructor
  · intro heq x hx
    rw [← heq] at hx
    exact (List.mem_filter.mp ((deliver_isPrefix _).subset hx)).2
  · intro h
    induction rows generalizing callback with
    | nil => rfl
    | cons x rows ih =>
      rw [deliver_cons] at h
      obtain ⟨hx, hrows⟩ := List.forall_mem_cons.mp h
      rw [List.filter_cons_of_pos hx, deliver_cons, deliver_cons]
      split
      · next hcallback =>
        rw [if_pos hcallback] at hrows
        rw [ih hrows]
      · rfl

end NumentaApps.CallbackDelivery
