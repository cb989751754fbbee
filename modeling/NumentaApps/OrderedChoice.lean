import Mathlib.Data.List.Basic

/-!
# Backtracking regular expressions

A regular expression that is a sequence of groups, each of which has its candidates in the
order in which a backtracking matcher tries them. The matcher takes the first way through
all groups, and does not ask for the end of the text.
-/
namespace NumentaApps.OrderedChoice

abbrev CharClass := Char → Bool

/-- Alternatives of character classes, or one character of a class and more, or none of it
and more. -/
inductive Group where
  | alternatives (classes : List (List CharClass))
  | run (k : CharClass)
  | star (k : CharClass)

def matchClasses : List CharClass → List Char → Option (List Char × List Char)
  | [], cs => some ([], cs)
  | _ :: _, [] => none
  | k :: ks, c :: cs => if k c then (matchClasses ks cs).map fun p => (c :: p.1, p.2) else none

/-- What a group can take of a text, with the rest of it, in the order of preference. -/
def Group.candidates : Group → List Char → List (List Char × List Char)
  | .alternatives classes, cs => classes.filterMap fun ks => matchClasses ks cs
  | .run k, cs =>
    let longest := (cs.takeWhile k).length
    (List.range longest).map fun i => (cs.take (longest - i), cs.drop (longest - i))
  | .star k, cs =>
    let longest := (cs.takeWhile k).length
    (List.range (longest + 1)).map fun i => (cs.take (longest - i), cs.drop (longest - i))

variable {E : Type} (group : E → Group)

/-- All ways through the groups, in the order of preference. -/
def ways : List E → List Char → List (List (E × List Char) × List Char)
  | [], cs => [([], cs)]
  | e :: es, cs => ((group e).candidates cs).flatMap fun taken =>
      (ways es taken.2).map fun way => ((e, taken.1) :: way.1, way.2)

/-- The groups of a match at the beginning of a text, and the text after it. -/
def matchPrefix (es : List E) (cs : List Char) : Option (List (E × List Char) × List Char) :=
  (ways group es cs).head?

/-! ## Ways -/

variable {group} {e : E} {es : List E} {cs text rest rest' : List Char}
  {found : List (E × List Char)}

theorem mem_ways_cons {way : List (E × List Char) × List Char} :
    way ∈ ways group (e :: es) cs ↔ ∃ taken ∈ (group e).candidates cs,
      ∃ tail ∈ ways group es taken.2, ((e, taken.1) :: tail.1, tail.2) = way := by
  simp only [ways, List.mem_flatMap, List.mem_map]

/-- A first choice that leads on is the choice. -/
theorem matchPrefix_cons (hfirst : ((group e).candidates cs).head? = some (text, rest))
    (htail : matchPrefix group es rest = some (found, rest')) :
    matchPrefix group (e :: es) cs = some ((e, text) :: found, rest') := by
  obtain ⟨others, hothers⟩ := List.head?_eq_some_iff.mp hfirst
  obtain ⟨ways', hways⟩ := List.head?_eq_some_iff.mp htail
  rw [matchPrefix, ways, hothers, List.flatMap_cons, hways]
  rfl

/-! ## Candidates -/

theorem matchClasses_cons (k : CharClass) (ks : List CharClass) (c : Char) (cs : List Char) :
    matchClasses (k :: ks) (c :: cs) =
      if k c then (matchClasses ks cs).map fun p => (c :: p.1, p.2) else none := rfl

theorem matchClasses_split {ks : List CharClass} {p : List Char × List Char}
    (h : matchClasses ks cs = some p) : p.1 ++ p.2 = cs ∧ p.1.length = ks.length := by
  induction ks generalizing cs p with
  | nil =>
    cases h
    exact ⟨rfl, rfl⟩
  | cons k ks ih =>
    cases cs with
    | nil => cases h
    | cons c cs =>
      unfold matchClasses at h
      split at h
      · obtain ⟨q, hq, rfl⟩ := Option.map_eq_some_iff.mp h
        obtain ⟨happend, hlength⟩ := ih hq
        exact ⟨by rw [List.cons_append, happend], by rw [List.length_cons, hlength]; rfl⟩
      · cases h

/-- What comes after a text does not matter where the classes do not take it. -/
theorem matchClasses_append {ks : List CharClass}
    (hrest : ∀ c ∈ rest.head?, ∀ k ∈ ks, k c = false) :
    matchClasses ks (text ++ rest) = (matchClasses ks text).map fun p => (p.1, p.2 ++ rest) := by
  induction ks generalizing text with
  | nil => rfl
  | cons k ks ih =>
    cases text with
    | nil =>
      cases rest with
      | nil => rfl
      | cons c rest =>
        rw [List.nil_append, matchClasses_cons, hrest c rfl k List.mem_cons_self]
        rfl
    | cons c text =>
      rw [List.cons_append, matchClasses_cons, matchClasses_cons,
        ih fun d hd k' hk' => hrest d hd k' (List.mem_cons_of_mem _ hk')]
      split
      · rw [Option.map_map, Option.map_map]
        rfl
      · rfl

/-- Nor does it matter to a group whose classes after the first do not take it. -/
theorem candidates_append {classes : List (List CharClass)} (htext : text ≠ [])
    (hrest : ∀ c ∈ rest.head?, ∀ ks ∈ classes, ∀ k ∈ ks.tail, k c = false) :
    (Group.alternatives classes).candidates (text ++ rest) =
      ((Group.alternatives classes).candidates text).map fun p => (p.1, p.2 ++ rest) := by
  obtain ⟨c, text, rfl⟩ := List.exists_cons_of_ne_nil htext
  rw [Group.candidates, Group.candidates, List.map_filterMap]
  refine List.filterMap_congr fun ks hks => ?_
  cases ks with
  | nil => rfl
  | cons k ks =>
    have htail : matchClasses ks (text ++ rest) =
        (matchClasses ks text).map fun p => (p.1, p.2 ++ rest) :=
      matchClasses_append fun d hd k' hk' => hrest d hd (k :: ks) hks k' hk'
    rw [List.cons_append, matchClasses_cons, matchClasses_cons, htail]
    split
    · rw [Option.map_map, Option.map_map]
      rfl
    · rfl

theorem candidates_split {classes : List (List CharClass)} {p : List Char × List Char}
    (h : p ∈ (Group.alternatives classes).candidates cs) : p.1 ++ p.2 = cs := by
  obtain ⟨ks, -, hp⟩ := List.mem_filterMap.mp h
  exact (matchClasses_split hp).1

/-- A run takes all that it can first. -/
theorem candidates_run_head {k : CharClass} (htext : text ≠ []) (hk : ∀ c ∈ text, k c)
    (hrest : ∀ c ∈ rest.head?, k c = false) :
    ((Group.run k).candidates (text ++ rest)).head? = some (text, rest) := by
  have hstop : rest.takeWhile k = [] := by
    cases rest with
    | nil => rfl
    | cons c rest => exact List.takeWhile_cons_of_neg (by simp [hrest c rfl])
  have hlongest : (text ++ rest).takeWhile k = text := by
    rw [List.takeWhile_append_of_pos hk, hstop, List.append_nil]
  rw [Group.candidates, hlongest, List.head?_map, List.head?_range,
    if_neg (fun h => htext (List.length_eq_zero_iff.mp h)), Option.map_some, Nat.sub_zero,
    List.take_left, List.drop_left]

/-- A single character of a class is taken alone. -/
theorem candidates_run {k : CharClass} {c : Char} (hc : k c)
    (hrest : ∀ d ∈ rest.head?, k d = false) :
    (Group.run k).candidates (c :: rest) = [([c], rest)] := by
  have hlongest : (c :: rest).takeWhile k = [c] := by
    rw [List.takeWhile_cons_of_pos hc]
    cases rest with
    | nil => rfl
    | cons d rest => rw [List.takeWhile_cons_of_neg (by simp [hrest d rfl])]
  rw [Group.candidates, hlongest]
  rfl

theorem candidates_one_cons {k : CharClass} {c : Char} (hc : k c) :
    (Group.alternatives [[k]]).candidates (c :: cs) = [([c], cs)] := by
  simp [Group.candidates, matchClasses, hc]

theorem candidates_one {k : CharClass} {taken : List Char × List Char} :
    taken ∈ (Group.alternatives [[k]]).candidates cs ↔
      ∃ c, k c ∧ taken.1 = [c] ∧ cs = c :: taken.2 := by
  rw [Group.candidates, List.mem_filterMap]
  cases cs with
  | nil =>
    apply iff_of_false
    · intro ⟨_, hks, h⟩
      rw [List.mem_singleton.mp hks] at h
      cases h
    · intro ⟨_, _, _, h⟩
      cases h
  | cons c cs =>
    have hmatch : matchClasses [k] (c :: cs) = if k c then some ([c], cs) else none := rfl
    constructor
    · intro ⟨_, hks, h⟩
      rw [List.mem_singleton.mp hks, hmatch] at h
      split at h
      · rename_i hc
        cases h
        exact ⟨c, hc, rfl, rfl⟩
      · cases h
    · intro ⟨d, hd, htext, hcs⟩
      cases hcs
      refine ⟨[k], List.mem_singleton_self _, ?_⟩
      rw [hmatch, if_pos hd, ← htext]

theorem candidates_any :
    (Group.star fun _ => true).candidates cs =
      (List.range (cs.length + 1)).map fun i =>
        (cs.take (cs.length - i), cs.drop (cs.length - i)) := by
  have hall : cs.takeWhile (fun _ => true) = cs := by
    rw [← List.append_nil cs, List.takeWhile_append_of_pos fun _ _ => rfl, List.takeWhile_nil]
  rw [Group.candidates, hall]

theorem mem_candidates_any {taken : List Char × List Char} :
    taken ∈ (Group.star fun _ => true).candidates cs ↔ taken.1 ++ taken.2 = cs := by
  rw [candidates_any, List.mem_map]
  constructor
  · rintro ⟨i, -, rfl⟩
    exact List.take_append_drop _ cs
  · intro h
    have hlength : taken.1.length + taken.2.length = cs.length := by
      rw [← List.length_append, h]
    refine ⟨taken.2.length, List.mem_range.mpr (by omega), ?_⟩
    rw [← hlength, Nat.add_sub_cancel, ← h, List.take_left, List.drop_left]

/-- The longest text is tried first: what is left over of an earlier choice ends what is left
over of a later one. -/
theorem candidates_any_pairwise :
    ((Group.star fun _ => true).candidates cs).Pairwise fun p q => p.2 <:+ q.2 := by
  rw [candidates_any, List.pairwise_map]
  refine List.pairwise_lt_range.imp fun {i j} hij => ?_
  exact List.drop_suffix_drop_left cs (by omega)

/-! ## Matching to the end -/

/-- Groups of one character, or of any text at all. -/
inductive Group.OneOrAny : Group → Prop
  | one (k : CharClass) : OneOrAny (.alternatives [[k]])
  | any : OneOrAny (.star fun _ => true)

variable (group) in
/-- Some way through the groups leaves this rest. -/
def Leaves (es : List E) (cs rest : List Char) : Prop :=
  ∃ way ∈ ways group es cs, way.2 = rest

theorem leaves_nil : Leaves group [] cs rest ↔ cs = rest := by
  simp only [Leaves, ways, List.mem_singleton, exists_eq_left]

theorem leaves_cons : Leaves group (e :: es) cs rest ↔
    ∃ taken ∈ (group e).candidates cs, Leaves group es taken.2 rest := by
  constructor
  · intro ⟨way, hway, hrest⟩
    obtain ⟨taken, htaken, tail, htail, rfl⟩ := mem_ways_cons.mp hway
    exact ⟨taken, htaken, tail, htail, hrest⟩
  · intro ⟨taken, htaken, tail, htail, hrest⟩
    exact ⟨_, mem_ways_cons.mpr ⟨taken, htaken, tail, htail, rfl⟩, hrest⟩

theorem leaves_one {k : CharClass} (he : group e = .alternatives [[k]]) :
    Leaves group (e :: es) cs rest ↔ ∃ c t, k c ∧ cs = c :: t ∧ Leaves group es t rest := by
  rw [leaves_cons, he]
  constructor
  · intro ⟨taken, htaken, hleaves⟩
    obtain ⟨c, hc, -, hcs⟩ := candidates_one.mp htaken
    exact ⟨c, taken.2, hc, hcs, hleaves⟩
  · intro ⟨c, t, hc, hcs, hleaves⟩
    exact ⟨([c], t), candidates_one.mpr ⟨c, hc, rfl, hcs⟩, hleaves⟩

theorem leaves_any (he : group e = .star fun _ => true) :
    Leaves group (e :: es) cs rest ↔ ∃ s t, s ++ t = cs ∧ Leaves group es t rest := by
  rw [leaves_cons, he]
  constructor
  · intro ⟨taken, htaken, hleaves⟩
    exact ⟨taken.1, taken.2, mem_candidates_any.mp htaken, hleaves⟩
  · intro ⟨s, t, hst, hleaves⟩
    exact ⟨(s, t), mem_candidates_any.mpr hst, hleaves⟩

/-- What matches a longer text to its end, and the beginning of a text that ends it, matches
this one to its end. -/
theorem Leaves.of_suffix (hgroups : ∀ e ∈ es, (group e).OneOrAny)
    (hleaves : Leaves group es cs rest) {longer : List Char}
    (hlonger : Leaves group es longer []) (hsuffix : cs <:+ longer) : Leaves group es cs [] := by
  induction es generalizing cs longer with
  | nil =>
    rw [leaves_nil] at hlonger ⊢
    rw [hlonger] at hsuffix
    exact List.suffix_nil.mp hsuffix
  | cons e es ih =>
    have hrec := fun {t : List Char} => @ih t (List.forall_mem_of_forall_mem_cons hgroups)
    generalize hg : group e = g
    have hgroup : g.OneOrAny := hg ▸ hgroups e List.mem_cons_self
    cases hgroup with
    | one k =>
      rw [leaves_one hg] at hleaves hlonger ⊢
      obtain ⟨c, t, hc, rfl, ht⟩ := hleaves
      obtain ⟨d, u, -, rfl, hu⟩ := hlonger
      refine ⟨c, t, hc, rfl, hrec ht hu ?_⟩
      rcases List.suffix_cons_iff.mp hsuffix with heq | htail
      · cases heq
        exact List.suffix_rfl
      · exact (List.suffix_cons c t).trans htail
    | any =>
      rw [leaves_any hg] at hleaves hlonger ⊢
      obtain ⟨s, t, rfl, ht⟩ := hleaves
      obtain ⟨s', u, rfl, hu⟩ := hlonger
      rcases List.suffix_or_suffix_of_suffix (List.suffix_append s' u) hsuffix with hshort | hlong
      · obtain ⟨before, hbefore⟩ := hshort
        exact ⟨before, u, hbefore, hu⟩
      · exact ⟨s, t, rfl, hrec ht hu ((List.suffix_append s t).trans hlong)⟩

/-- A matcher that tries longer texts first, and is content with the beginning of the text,
comes to its end whenever some way does. -/
theorem matchPrefix_rest_nil (hgroups : ∀ e ∈ es, (group e).OneOrAny)
    (hleaves : Leaves group es cs []) : ∃ found, matchPrefix group es cs = some (found, []) := by
  induction es generalizing cs with
  | nil =>
    rw [leaves_nil] at hleaves
    exact ⟨[], by rw [hleaves]; rfl⟩
  | cons e es ih =>
    have hothers := List.forall_mem_of_forall_mem_cons hgroups
    generalize hg : group e = g
    have hgroup : g.OneOrAny := hg ▸ hgroups e List.mem_cons_self
    cases hgroup with
    | one k =>
      obtain ⟨c, t, hc, rfl, ht⟩ := (leaves_one hg).mp hleaves
      obtain ⟨found, hfound⟩ := ih hothers ht
      refine ⟨(e, [c]) :: found, matchPrefix_cons ?_ hfound⟩
      rw [hg, candidates_one_cons hc, List.head?_cons]
    | any =>
      -- the first candidate that leads on at all leaves a suffix of what the good one leaves
      obtain ⟨good, hgood, hend⟩ := leaves_cons.mp hleaves
      have hsome : ∃ way, matchPrefix group (e :: es) cs = some way := by
        obtain ⟨way, hway, -⟩ := hleaves
        obtain ⟨first, others, hways⟩ := List.exists_cons_of_ne_nil (List.ne_nil_of_mem hway)
        exact ⟨first, by rw [matchPrefix, hways, List.head?_cons]⟩
      obtain ⟨way, hway⟩ := hsome
      have hfind := hway
      rw [matchPrefix, ways, List.head?_flatMap, List.findSome?_eq_some_iff] at hfind
      obtain ⟨before, first, after, hcandidates, hfirst, hbefore⟩ := hfind
      rw [List.head?_map, Option.map_eq_some_iff] at hfirst
      obtain ⟨tail, htail, rfl⟩ := hfirst
      have hsuffix : first.2 <:+ good.2 := by
        have hpairwise : ((group e).candidates cs).Pairwise fun p q => p.2 <:+ q.2 :=
          hg ▸ candidates_any_pairwise
        rw [hcandidates] at hgood hpairwise
        rcases List.mem_append.mp hgood with hmem | hmem
        · obtain ⟨last, hlast, -⟩ := hend
          have hnone := hbefore good hmem
          rw [List.head?_map, Option.map_eq_none_iff, List.head?_eq_none_iff] at hnone
          rw [hnone] at hlast
          cases hlast
        · rcases List.mem_cons.mp hmem with rfl | hafter
          · exact List.suffix_rfl
          · exact (List.pairwise_cons.mp (List.pairwise_append.mp hpairwise).2.1).1 good hafter
      have hleads : Leaves group es first.2 tail.2 :=
        ⟨tail, List.mem_of_mem_head? htail, rfl⟩
      obtain ⟨found, hfound⟩ := ih hothers (hleads.of_suffix hothers hend hsuffix)
      rw [matchPrefix, htail] at hfound
      cases hfound
      exact ⟨_, hway⟩

end NumentaApps.OrderedChoice
