import Mathlib.Data.List.Forall2
import Mathlib.Logic.Function.Basic
import NumentaApps.OrderedChoice

/-!
# Matching the tags of EC2 instances

The filters of the instances of an Autostack, `aggregator_instances.py`: a value pattern with
`?`, `*` and escapes is converted to a regular expression, compiled when it is first needed
and cached.
-/
namespace NumentaApps.HTMIT

open OrderedChoice

inductive ValueError where
  | unexpectedEscaping (c : Char) (awsPattern : List Char)
  | danglingEscape (awsPattern : List Char)
deriving DecidableEq

def specialREcharactersToEscape : List Char := ".^$+\x7b\x7d[]|()".toList

/-- What stands for a character that is not escaped and does not escape. -/
def regularExpressionOf (c : Char) : List Char :=
  if c = '?' then ['.']
  else if c = '*' then ['(', '.', '*', ')']
  else if c ∈ specialREcharactersToEscape then ['\\', c]
  else [c]

/-- One round of the loop over the pattern, with `resultPattern` and `wasEscaped`. -/
def convertCharacter (awsPattern : List Char) :
    List Char × Bool → Char → Except ValueError (List Char × Bool)
  | (resultPattern, true), c =>
    if c ∉ ['\\', '?', '*'] then .error (.unexpectedEscaping c awsPattern)
    else .ok (resultPattern ++ [c], false)
  | (resultPattern, false), c =>
    if c = '\\' then .ok (resultPattern ++ [c], true)
    else .ok (resultPattern ++ regularExpressionOf c, false)

def convertEnd (awsPattern : List Char) : List Char × Bool → Except ValueError (List Char)
  | (_, true) => .error (.danglingEscape awsPattern)
  | (resultPattern, false) => .ok resultPattern

def convertAWSPatternToRE (awsPattern : List Char) : Except ValueError (List Char) :=
  awsPattern.foldlM (convertCharacter awsPattern) ([], false) >>= convertEnd awsPattern

/-! ## Regular expressions -/

/-- The pieces of the regular expressions that the conversion writes. -/
inductive Atom where
  | char (c : Char)
  | any
  | anyStar
deriving DecidableEq

/-- With `re.DOTALL` a dot takes a newline too. -/
def Atom.group : Atom → Group
  | .char c => .alternatives [[fun d => d == c]]
  | .any => .alternatives [[fun _ => true]]
  | .anyStar => .star fun _ => true

/-- The characters that `re` gives a meaning to outside of a class. -/
def reCharacters : List Char := '\\' :: '?' :: '*' :: specialREcharactersToEscape

/-- `re.compile`, where the expression has nothing but characters, dots, escaped characters
that are neither letters nor digits, and groups of anything. -/
def compile : List Char → Option (List Atom)
  | [] => some []
  | '\\' :: c :: pattern =>
    if c.isAlphanum then none else (compile pattern).map (.char c :: ·)
  | '(' :: '.' :: '*' :: ')' :: pattern => (compile pattern).map (.anyStar :: ·)
  | '.' :: pattern => (compile pattern).map (.any :: ·)
  | c :: pattern => if c ∈ reCharacters then none else (compile pattern).map (.char c :: ·)

/-! ## The matcher -/

inductive MatchError where
  | valueError (error : ValueError)
  | reError
deriving DecidableEq

abbrev Tags := String → Option String

structure EC2InstanceTagMatcher where
  compiledPatterns : String → Option (List Atom)

namespace EC2InstanceTagMatcher

def init : Except MatchError EC2InstanceTagMatcher := .ok ⟨fun _ => none⟩

def compiled (self : EC2InstanceTagMatcher) (valuePattern : String) :
    Except MatchError (List Atom × EC2InstanceTagMatcher) :=
  match self.compiledPatterns valuePattern with
  | some patternObj => .ok (patternObj, self)
  | none =>
    match convertAWSPatternToRE valuePattern.toList with
    | .error error => .error (.valueError error)
    | .ok pattern =>
      match compile pattern with
      | none => .error .reError
      | some patternObj =>
        .ok (patternObj,
          ⟨Function.update self.compiledPatterns valuePattern (some patternObj)⟩)

/-- Python's `match` begins at the beginning; its end is compared with the value's. -/
def matchesToEnd (patternObj : List Atom) (tagValue : String) : Bool :=
  match matchPrefix Atom.group patternObj tagValue.toList with
  | none => false
  | some (_, rest) => rest.isEmpty

def «match» (self : EC2InstanceTagMatcher) (tags : Tags) (tagFilter : String × String) :
    Except MatchError Bool × EC2InstanceTagMatcher :=
  match tags tagFilter.1 with
  | none => (.ok false, self)
  | some tagValue =>
    match self.compiled tagFilter.2 with
    | .error error => (.error error, self)
    | .ok (patternObj, self') => (.ok (matchesToEnd patternObj tagValue), self')

/-- The answers to one call after another. -/
def answers (self : EC2InstanceTagMatcher) :
    List (Tags × String × String) → List (Except MatchError Bool)
  | [] => []
  | (tags, tagFilter) :: calls =>
    (self.match tags tagFilter).1 :: (self.match tags tagFilter).2.answers calls

end EC2InstanceTagMatcher

/-! ## What a pattern stands for -/

/-- The values that an AWS pattern generates. -/
inductive Generates : List Char → List Char → Prop
  | nil : Generates [] []
  | star {pattern value : List Char} (text : List Char) (h : Generates pattern value) :
    Generates ('*' :: pattern) (text ++ value)
  | one {pattern value : List Char} (c : Char) (h : Generates pattern value) :
    Generates ('?' :: pattern) (c :: value)
  | escaped {pattern value : List Char} {c : Char} (hc : c ∈ ['\\', '?', '*'])
    (h : Generates pattern value) : Generates ('\\' :: c :: pattern) (c :: value)
  | char {pattern value : List Char} {c : Char} (hc : c ∉ ['\\', '?', '*'])
    (h : Generates pattern value) : Generates (c :: pattern) (c :: value)

/-- Read from the left, some backslash escapes nothing that may be escaped. -/
def hasBadEscape : List Char → Bool
  | [] => false
  | ['\\'] => true
  | '\\' :: c :: pattern => c ∉ ['\\', '?', '*'] || hasBadEscape pattern
  | _ :: pattern => hasBadEscape pattern

variable {c : Char} {pattern value : List Char}

theorem generates_star :
    Generates ('*' :: pattern) value ↔ ∃ s t, s ++ t = value ∧ Generates pattern t := by
  constructor
  · intro h
    cases h with
    | star text h => exact ⟨text, _, rfl, h⟩
    | char hc h => exact absurd (by decide) hc
  · rintro ⟨s, t, rfl, h⟩
    exact .star s h

theorem generates_one :
    Generates ('?' :: pattern) value ↔ ∃ c t, value = c :: t ∧ Generates pattern t := by
  constructor
  · intro h
    cases h with
    | one c h => exact ⟨c, _, rfl, h⟩
    | char hc h => exact absurd (by decide) hc
  · rintro ⟨c, t, rfl, h⟩
    exact .one c h

theorem generates_char (hc : c ∉ ['\\', '?', '*']) :
    Generates (c :: pattern) value ↔ ∃ t, value = c :: t ∧ Generates pattern t := by
  constructor
  · intro h
    cases h with
    | char _ h => exact ⟨_, rfl, h⟩
    | star => exact absurd (by decide) hc
    | one => exact absurd (by decide) hc
    | escaped => exact absurd (by decide) hc
  · rintro ⟨t, rfl, h⟩
    exact .char hc h

theorem generates_escaped (hc : c ∈ ['\\', '?', '*']) :
    Generates ('\\' :: c :: pattern) value ↔ ∃ t, value = c :: t ∧ Generates pattern t := by
  constructor
  · intro h
    cases h with
    | escaped _ h => exact ⟨_, rfl, h⟩
    | char hc h => exact absurd (by decide) hc
  · rintro ⟨t, rfl, h⟩
    exact .escaped hc h

theorem hasBadEscape_char (hc : c ≠ '\\') :
    hasBadEscape (c :: pattern) = hasBadEscape pattern := by
  rw [hasBadEscape]
  · intro h
    exact absurd h hc
  · intro _ _ h
    exact absurd h hc

theorem Generates.not_hasBadEscape (h : Generates pattern value) :
    hasBadEscape pattern = false := by
  induction h with
  | nil => rfl
  | star _ _ ih => exact ih
  | one _ _ ih => exact ih
  | escaped hc _ ih => rw [hasBadEscape, ih, decide_eq_false (not_not_intro hc), Bool.or_self]
  | @char pattern value c hc _ ih =>
    rw [hasBadEscape_char, ih]
    rintro rfl
    exact absurd (by decide) hc

/-! ## The conversion -/

/-- The loop from where a part of the pattern is converted and no escape is open. -/
def convertFrom (awsPattern resultPattern pattern : List Char) : Except ValueError (List Char) :=
  pattern.foldlM (convertCharacter awsPattern) (resultPattern, false) >>= convertEnd awsPattern

variable {awsPattern resultPattern : List Char}

theorem convertFrom_char (hc : c ≠ '\\') :
    convertFrom awsPattern resultPattern (c :: pattern) =
      convertFrom awsPattern (resultPattern ++ regularExpressionOf c) pattern := by
  rw [convertFrom, List.foldlM_cons, convertCharacter, if_neg hc]
  rfl

theorem convertFrom_escaped (hc : c ∈ ['\\', '?', '*']) :
    convertFrom awsPattern resultPattern ('\\' :: c :: pattern) =
      convertFrom awsPattern (resultPattern ++ ['\\', c]) pattern := by
  have hround : convertCharacter awsPattern (resultPattern ++ ['\\'], true) c =
      .ok (resultPattern ++ ['\\', c], false) := by
    rw [convertCharacter, if_neg (not_not_intro hc), List.append_assoc]
    rfl
  rw [convertFrom, List.foldlM_cons, convertCharacter, if_pos rfl]
  show (List.foldlM _ _ (c :: pattern) >>= _) = _
  rw [List.foldlM_cons, hround]
  rfl

theorem convertFrom_unexpected (hc : c ∉ ['\\', '?', '*']) :
    convertFrom awsPattern resultPattern ('\\' :: c :: pattern) =
      .error (.unexpectedEscaping c awsPattern) := by
  have hround : convertCharacter awsPattern (resultPattern ++ ['\\'], true) c =
      .error (.unexpectedEscaping c awsPattern) := if_pos hc
  rw [convertFrom, List.foldlM_cons, convertCharacter, if_pos rfl]
  show (List.foldlM _ _ (c :: pattern) >>= _) = _
  rw [List.foldlM_cons, hround]
  rfl

theorem convertFrom_dangling :
    convertFrom awsPattern resultPattern ['\\'] = .error (.danglingEscape awsPattern) := rfl

/-! ## The compiled pattern -/

/-- The atom of a character that is not escaped and does not escape. -/
def atomOf (c : Char) : Atom :=
  if c = '?' then .any else if c = '*' then .anyStar else .char c

theorem compile_escape (hc : c.isAlphanum = false) :
    compile ('\\' :: c :: pattern) = (compile pattern).map (.char c :: ·) := by
  rw [compile, hc]
  rfl

theorem compile_char (hc : c ∉ reCharacters) :
    compile (c :: pattern) = (compile pattern).map (.char c :: ·) := by
  rw [compile.eq_def]
  split
  · rename_i h
    cases h
  all_goals rename_i h
  all_goals cases h
  · exact absurd (by decide) hc
  · exact absurd (by decide) hc
  · exact absurd (by decide) hc
  · exact if_neg hc

theorem special_not_alphanum (hc : c ∈ specialREcharactersToEscape) :
    c.isAlphanum = false := by
  have hall : specialREcharactersToEscape.all (fun c => !c.isAlphanum) = true := by
    decide +kernel
  exact Bool.not_eq_true' _ ▸ List.all_eq_true.mp hall c hc

theorem escapable_not_alphanum (hc : c ∈ ['\\', '?', '*']) : c.isAlphanum = false := by
  have hall : ['\\', '?', '*'].all (fun c => !c.isAlphanum) = true := by decide +kernel
  exact Bool.not_eq_true' _ ▸ List.all_eq_true.mp hall c hc

theorem compile_regularExpressionOf (hc : c ≠ '\\') :
    compile (regularExpressionOf c ++ pattern) = (compile pattern).map (atomOf c :: ·) := by
  rw [regularExpressionOf, atomOf]
  split
  · rfl
  rename_i hone
  split
  · rfl
  rename_i hstar
  split
  · rename_i hspecial
    exact compile_escape (special_not_alphanum hspecial)
  · rename_i hspecial
    refine compile_char fun hmem => ?_
    rcases List.mem_cons.mp hmem with h | hmem
    · exact hc h
    rcases List.mem_cons.mp hmem with h | hmem
    · exact hone h
    rcases List.mem_cons.mp hmem with h | hmem
    · exact hstar h
    · exact hspecial hmem

theorem group_char : Atom.group (.char c) = .alternatives [[fun d => d == c]] := rfl

theorem group_any : Atom.group .any = .alternatives [[fun _ => true]] := rfl

theorem group_anyStar : Atom.group .anyStar = .star fun _ => true := rfl

theorem Atom.group_oneOrAny (atom : Atom) : atom.group.OneOrAny := by
  cases atom with
  | char c => exact .one _
  | any => exact .one _
  | anyStar => exact .any

/-- The atoms take exactly what the pattern generates. -/
def Accepts (atoms : List Atom) (pattern : List Char) : Prop :=
  ∀ value, Leaves Atom.group atoms value [] ↔ Generates pattern value

theorem accepts_nil : Accepts [] [] := by
  intro value
  rw [leaves_nil]
  constructor
  · rintro rfl
    exact .nil
  · intro h
    cases h
    rfl

variable {atoms : List Atom}

theorem leaves_char :
    Leaves Atom.group (.char c :: atoms) value [] ↔
      ∃ t, value = c :: t ∧ Leaves Atom.group atoms t [] := by
  rw [leaves_one group_char]
  constructor
  · rintro ⟨d, t, hd, rfl, h⟩
    exact ⟨t, by rw [eq_of_beq hd], h⟩
  · rintro ⟨t, rfl, h⟩
    exact ⟨c, t, beq_self_eq_true c, rfl, h⟩

theorem Accepts.escaped (h : Accepts atoms pattern) (hc : c ∈ ['\\', '?', '*']) :
    Accepts (.char c :: atoms) ('\\' :: c :: pattern) := by
  intro value
  rw [leaves_char, generates_escaped hc]
  exact exists_congr fun t => and_congr_right fun _ => h t

theorem Accepts.char (h : Accepts atoms pattern) (hc : c ≠ '\\') :
    Accepts (atomOf c :: atoms) (c :: pattern) := by
  intro value
  rw [atomOf]
  split
  · rename_i hone
    rw [hone, leaves_one group_any, generates_one]
    refine exists_congr fun d => exists_congr fun t => ?_
    rw [h t]
    exact ⟨fun h => h.2, fun h => ⟨rfl, h⟩⟩
  rename_i hone
  split
  · rename_i hstar
    rw [hstar, leaves_any group_anyStar, generates_star]
    exact exists_congr fun s => exists_congr fun t => and_congr_right fun _ => h t
  · rename_i hstar
    have hplain : c ∉ ['\\', '?', '*'] := by
      simp only [List.mem_cons, List.not_mem_nil, or_false, not_or]
      exact ⟨hc, hone, hstar⟩
    rw [leaves_char, generates_char hplain]
    exact exists_congr fun t => and_congr_right fun _ => h t

/-- Where the last two rules of `hasBadEscape` do not apply, the character does not escape. -/
theorem ne_backslash (hlast : c = '\\' → pattern = [] → False)
    (hescape : ∀ d tail, c = '\\' → pattern = d :: tail → False) : c ≠ '\\' := by
  intro hc
  cases pattern with
  | nil => exact hlast hc rfl
  | cons d tail => exact hescape d tail hc rfl

theorem convertFrom_error (h : hasBadEscape pattern) :
    ∃ error, convertFrom awsPattern resultPattern pattern = .error error := by
  induction pattern using hasBadEscape.induct generalizing resultPattern with
  | case1 => cases h
  | case2 => exact ⟨_, convertFrom_dangling⟩
  | case3 c pattern ih =>
    rw [hasBadEscape, Bool.or_eq_true, decide_eq_true_eq] at h
    by_cases hc : c ∈ ['\\', '?', '*']
    · rw [convertFrom_escaped hc]
      exact ih (h.resolve_left (not_not_intro hc))
    · exact ⟨_, convertFrom_unexpected hc⟩
  | case4 c pattern hlast hescape ih =>
    have hc := ne_backslash hlast hescape
    rw [hasBadEscape_char hc] at h
    rw [convertFrom_char hc]
    exact ih h

theorem convertFrom_ok (h : hasBadEscape pattern = false) :
    ∃ converted atoms, convertFrom awsPattern resultPattern pattern =
        .ok (resultPattern ++ converted) ∧
      compile converted = some atoms ∧ Accepts atoms pattern := by
  induction pattern using hasBadEscape.induct generalizing resultPattern with
  | case1 => exact ⟨[], [], by rw [List.append_nil]; rfl, rfl, accepts_nil⟩
  | case2 => cases h
  | case3 c pattern ih =>
    rw [hasBadEscape, Bool.or_eq_false_iff, decide_eq_false_iff_not, not_not] at h
    obtain ⟨converted, atoms, hconvert, hcompile, haccepts⟩ :=
      @ih (resultPattern ++ ['\\', c]) h.2
    refine ⟨'\\' :: c :: converted, .char c :: atoms, ?_, ?_, haccepts.escaped h.1⟩
    · rw [convertFrom_escaped h.1, hconvert, List.append_assoc]
      rfl
    · rw [compile_escape (escapable_not_alphanum h.1), hcompile, Option.map_some]
  | case4 c pattern hlast hescape ih =>
    have hc := ne_backslash hlast hescape
    rw [hasBadEscape_char hc] at h
    obtain ⟨converted, atoms, hconvert, hcompile, haccepts⟩ :=
      @ih (resultPattern ++ regularExpressionOf c) h
    refine ⟨regularExpressionOf c ++ converted, atomOf c :: atoms, ?_, ?_, haccepts.char hc⟩
    · rw [convertFrom_char hc, hconvert, List.append_assoc]
    · rw [compile_regularExpressionOf hc, hcompile, Option.map_some]

namespace EC2InstanceTagMatcher

theorem matchesToEnd_iff {valuePattern tagValue : String}
    (h : Accepts atoms valuePattern.toList) :
    matchesToEnd atoms tagValue ↔ Generates valuePattern.toList tagValue.toList := by
  rw [← h, matchesToEnd]
  constructor
  · intro hmatch
    split at hmatch
    · cases hmatch
    · rename_i found rest hfound
      refine ⟨(found, rest), List.mem_of_mem_head? hfound, List.isEmpty_iff.mp hmatch⟩
  · intro hleaves
    obtain ⟨found, hfound⟩ := matchPrefix_rest_nil (fun atom _ => atom.group_oneOrAny) hleaves
    rw [hfound]
    rfl

/-- The cache holds what the patterns would be compiled to now. -/
def Cached (self : EC2InstanceTagMatcher) : Prop :=
  ∀ valuePattern patternObj, self.compiledPatterns valuePattern = some patternObj →
    hasBadEscape valuePattern.toList = false ∧ Accepts patternObj valuePattern.toList

variable {self : EC2InstanceTagMatcher} {valuePattern : String}

/-- What the lookup of a compiled pattern can come to. -/
theorem compiled_cases (h : self.Cached) :
    (hasBadEscape valuePattern.toList ∧
      ∃ error, self.compiled valuePattern = .error (.valueError error)) ∨
    (hasBadEscape valuePattern.toList = false ∧ ∃ patternObj self',
      self.compiled valuePattern = .ok (patternObj, self') ∧
        Accepts patternObj valuePattern.toList ∧ self'.Cached) := by
  rw [compiled]
  split
  · rename_i patternObj hcached
    obtain ⟨hgood, haccepts⟩ := h _ _ hcached
    exact .inr ⟨hgood, patternObj, self, rfl, haccepts, h⟩
  by_cases hbad : hasBadEscape valuePattern.toList
  · obtain ⟨error, herror⟩ :=
      @convertFrom_error valuePattern.toList valuePattern.toList [] hbad
    exact .inl ⟨hbad, error, by rw [convertAWSPatternToRE, ← convertFrom, herror]⟩
  · rw [Bool.not_eq_true] at hbad
    obtain ⟨converted, atoms, hconvert, hcompile, haccepts⟩ :=
      @convertFrom_ok valuePattern.toList valuePattern.toList [] hbad
    rw [List.nil_append] at hconvert
    refine .inr ⟨hbad, atoms,
      ⟨Function.update self.compiledPatterns valuePattern (some atoms)⟩, ?_, haccepts, ?_⟩
    · rw [convertAWSPatternToRE, ← convertFrom, hconvert]
      simp only [hcompile]
    · intro other patternObj hother
      change Function.update _ _ _ other = _ at hother
      by_cases hsame : other = valuePattern
      · rw [hsame, Function.update_self] at hother
        cases hother
        rw [hsame]
        exact ⟨hbad, haccepts⟩
      · rw [Function.update_of_ne hsame] at hother
        exact h other patternObj hother

/-- What is right about an answer of `match`. -/
structure Decides (call : Tags × String × String) (answer : Except MatchError Bool) : Prop where
  raises : (∃ error, answer = .error error) ↔
    (call.1 call.2.1).isSome ∧ hasBadEscape call.2.2.toList
  valueError : ∀ error, answer = .error error → ∃ cause, error = .valueError cause
  accepts : answer = .ok true ↔
    ∃ tagValue, call.1 call.2.1 = some tagValue ∧ Generates call.2.2.toList tagValue.toList

theorem match_decides (h : self.Cached) (tags : Tags) (tagFilter : String × String) :
    Decides (tags, tagFilter) (self.match tags tagFilter).1 ∧
      (self.match tags tagFilter).2.Cached := by
  cases htag : tags tagFilter.1 with
  | none =>
    have hmatch : self.match tags tagFilter = (.ok false, self) := by simp only [«match», htag]
    rw [hmatch]
    refine ⟨⟨?_, ?_, ?_⟩, h⟩
    · simp only [htag, reduceCtorEq, exists_false, Option.isSome_none, Bool.false_eq_true,
        false_and]
    · intro error herror
      cases herror
    · simp only [htag, Except.ok.injEq, reduceCtorEq, false_and, exists_false]
  | some tagValue =>
    rcases @compiled_cases self tagFilter.2 h with
      ⟨hbad, error, hcompiled⟩ | ⟨hgood, patternObj, self', hcompiled, haccepts, hcached⟩
    · have hmatch : self.match tags tagFilter = (.error (.valueError error), self) := by
        simp only [«match», htag, hcompiled]
      rw [hmatch]
      refine ⟨⟨?_, ?_, ?_⟩, h⟩
      · exact iff_of_true ⟨_, rfl⟩ ⟨Option.isSome_iff_exists.mpr ⟨_, htag⟩, hbad⟩
      · intro _ herror
        cases herror
        exact ⟨error, rfl⟩
      · apply iff_of_false
        · intro hanswer
          cases hanswer
        · intro ⟨_, _, hgenerates⟩
          rw [hgenerates.not_hasBadEscape] at hbad
          cases hbad
    · have hmatch : self.match tags tagFilter = (.ok (matchesToEnd patternObj tagValue), self') := by
        simp only [«match», htag, hcompiled]
      rw [hmatch]
      refine ⟨⟨?_, ?_, ?_⟩, hcached⟩
      · apply iff_of_false
        · intro ⟨_, herror⟩
          cases herror
        · intro ⟨_, hbad⟩
          rw [hgood] at hbad
          cases hbad
      · intro _ herror
        cases herror
      · rw [Except.ok.injEq, matchesToEnd_iff haccepts]
        simp only [htag, Option.some.injEq, exists_eq_left']

theorem answers_decide (h : self.Cached) (calls : List (Tags × String × String)) :
    List.Forall₂ Decides calls (self.answers calls) := by
  induction calls generalizing self with
  | nil => exact .nil
  | cons call calls ih =>
    obtain ⟨hdecides, hcached⟩ := match_decides h call.1 call.2
    exact .cons hdecides (ih hcached)

theorem exists_iff_of_forall₂ {α β : Type} {R : α → β → Prop} {P : α → Prop} {Q : β → Prop}
    (hR : ∀ a b, R a b → (P a ↔ Q b)) {l : List α} {l' : List β} (h : List.Forall₂ R l l') :
    (∃ a ∈ l, P a) ↔ ∃ b ∈ l', Q b := by
  induction h with
  | nil => simp only [List.not_mem_nil, false_and, exists_false]
  | cons hab _ ih => rw [List.exists_mem_cons_iff, List.exists_mem_cons_iff, hR _ _ hab, ih]

/-- Whatever has been asked of a matcher before, a call raises if the tag is there and its
pattern has a bad escape, and else tells whether the pattern generates the tag's value. Over
a list of patterns for one value, some answer is true if and only if some pattern generates
the value, and some call raises if and only if some pattern has a bad escape. -/
theorem matcher_decides_filters :
    ∃ matcher, init = .ok matcher ∧
      (∀ calls, List.Forall₂ Decides calls (matcher.answers calls)) ∧
      ∀ (tags : Tags) (key tagValue : String) (patterns : List String),
        let answered := matcher.answers
          (patterns.map fun p => (Function.update tags key (some tagValue), key, p))
        ((∃ p ∈ patterns, Generates p.toList tagValue.toList) ↔ .ok true ∈ answered) ∧
        ((∃ p ∈ patterns, hasBadEscape p.toList) ↔ ∃ error, .error error ∈ answered) := by
  have hinit : Cached ⟨fun _ => none⟩ := fun _ _ h => by cases h
  refine ⟨_, rfl, answers_decide hinit, fun tags key tagValue patterns => ?_⟩
  have hdecides := List.forall₂_map_left_iff.mp (answers_decide hinit
    (patterns.map fun p => (Function.update tags key (some tagValue), key, p)))
  constructor
  · rw [exists_iff_of_forall₂ (Q := fun answer => answer = .ok true) ?_ hdecides]
    · exact exists_eq_right
    · intro p answer h
      rw [h.accepts]
      simp only [Function.update_self, Option.some.injEq, exists_eq_left']
  · rw [exists_iff_of_forall₂ (Q := fun answer => ∃ error, answer = .error error) ?_ hdecides]
    · simp only [exists_and_left.symm, @exists_comm _ MatchError, exists_eq_right]
    · intro p answer h
      rw [h.raises]
      simp only [Function.update_self, Option.isSome_some, true_and]

/-- A matcher is made without its patterns, so that none of them makes the construction raise;
and a bad pattern goes unnoticed where the tag is missing. -/
theorem construction_never_raises :
    ¬ (∀ patterns : List String,
      (∃ error, init = .error error) ↔ ∃ p ∈ patterns, hasBadEscape p.toList) ∧
    ∃ matcher, init = .ok matcher ∧
      (matcher.match (fun _ => none) ("Name", "web\\1")).1 = .ok false := by
  constructor
  · intro h
    obtain ⟨error, herror⟩ := (h ["web\\1"]).mpr ⟨_, List.mem_singleton_self _, by decide⟩
    cases herror
  · exact ⟨_, rfl, rfl⟩

end EC2InstanceTagMatcher

end NumentaApps.HTMIT
