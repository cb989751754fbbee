import NumentaApps.NumericLiteral
import Mathlib.Data.List.Infix

/-!
# Reading the text of a JSON value

`JSON.parse` of JavaScript. Its strings are sequences of UTF-16 code units; a number is kept as it
is written, and the fields of an object stand in the order of the text.
-/
namespace NumentaApps.JsonParse
open NumericLiteral (radixValue scanSign takeWhile_append_stop)

inductive Json where
  | null
  | bool (b : Bool)
  | number (literal : List Char)
  | string (units : List ℕ)
  | array (items : List Json)
  | object (fields : List (List ℕ × Json))

/-- The code units of a character. -/
def utf16 (c : Char) : List ℕ :=
  if c.toNat < 0x10000 then [c.toNat]
  else [0xd800 + (c.toNat - 0x10000) / 0x400, 0xdc00 + (c.toNat - 0x10000) % 0x400]

def isSpace (c : Char) : Bool := c = ' ' || c = '\t' || c = '\n' || c = '\r'

def skipSpace (cs : List Char) : List Char := cs.dropWhile isSpace

/-- What a character after a backslash stands for. -/
def simpleEscape : Char → Option ℕ
  | '"' => some 34
  | '\\' => some 92
  | '/' => some 47
  | 'b' => some 8
  | 'f' => some 12
  | 'n' => some 10
  | 'r' => some 13
  | 't' => some 9
  | _ => none

/-- A string after its opening quote, and the text after it. -/
def stringRest : List Char → Option (List ℕ × List Char)
  | [] => none
  | '"' :: cs => some ([], cs)
  | '\\' :: 'u' :: a :: b :: c :: d :: cs => do
    let unit ← radixValue 16 [a, b, c, d]
    let (units, rest) ← stringRest cs
    some (unit :: units, rest)
  | '\\' :: c :: cs => do
    let unit ← simpleEscape c
    let (units, rest) ← stringRest cs
    some (unit :: units, rest)
  | c :: cs =>
    if c.toNat < 32 then none
    else do
      let (units, rest) ← stringRest cs
      some (utf16 c ++ units, rest)

def isExponent : List Char → Bool
  | [] => true
  | c :: cs =>
    (c = 'e' || c = 'E') && ((scanSign cs).2 ≠ [] && (scanSign cs).2.all Char.isDigit)

def isFraction : List Char → Bool
  | '.' :: cs => cs.takeWhile Char.isDigit ≠ [] && isExponent (cs.dropWhile Char.isDigit)
  | cs => isExponent cs

def isUnsigned (cs : List Char) : Bool :=
  let integer := cs.takeWhile Char.isDigit
  (integer = ['0'] || integer.head?.any (· ≠ '0')) && isFraction (cs.dropWhile Char.isDigit)

/-- Whether the whole text is a number. It has no zero before other digits and none but digits
around its point. -/
def isNumber : List Char → Bool
  | '-' :: cs => isUnsigned cs
  | cs => isUnsigned cs

def isNumberChar (c : Char) : Bool := c.isDigit || "+-.eE".toList.contains c

/-- A value that is one word, and the text after it. -/
def word (cs : List Char) : Option (Json × List Char) :=
  if "null".toList.isPrefixOf cs then some (.null, cs.drop 4)
  else if "true".toList.isPrefixOf cs then some (.bool true, cs.drop 4)
  else if "false".toList.isPrefixOf cs then some (.bool false, cs.drop 5)
  else if isNumber (cs.takeWhile isNumberChar) then
    some (.number (cs.takeWhile isNumberChar), cs.dropWhile isNumberChar)
  else none

mutual

def value : ℕ → List Char → Option (Json × List Char)
  | 0, _ => none
  | fuel + 1, cs =>
    match skipSpace cs with
    | '"' :: cs => (stringRest cs).map fun found => (.string found.1, found.2)
    | '[' :: cs =>
      match skipSpace cs with
      | ']' :: rest => some (.array [], rest)
      | cs => (items fuel cs).map fun found => (.array found.1, found.2)
    | '{' :: cs =>
      match skipSpace cs with
      | '}' :: rest => some (.object [], rest)
      | cs => (fields fuel cs).map fun found => (.object found.1, found.2)
    | cs => word cs

/-- Items and the bracket after them. -/
def items : ℕ → List Char → Option (List Json × List Char)
  | 0, _ => none
  | fuel + 1, cs =>
    match value fuel cs with
    | none => none
    | some (item, cs) =>
      match skipSpace cs with
      | ',' :: cs => (items fuel cs).map fun found => (item :: found.1, found.2)
      | ']' :: rest => some ([item], rest)
      | _ => none

/-- Fields and the brace after them. -/
def fields : ℕ → List Char → Option (List (List ℕ × Json) × List Char)
  | 0, _ => none
  | fuel + 1, cs =>
    match skipSpace cs with
    | '"' :: cs =>
      match stringRest cs with
      | none => none
      | some (name, cs) =>
        match skipSpace cs with
        | ':' :: cs =>
          match value fuel cs with
          | none => none
          | some (item, cs) =>
            match skipSpace cs with
            | ',' :: cs => (fields fuel cs).map fun found => ((name, item) :: found.1, found.2)
            | '}' :: rest => some ([(name, item)], rest)
            | _ => none
        | _ => none
    | _ => none

end

/-- `JSON.parse`; none where it raises a `SyntaxError`. -/
def parse (cs : List Char) : Option Json :=
  match value (2 * cs.length + 1) cs with
  | some (json, rest) => if skipSpace rest = [] then some json else none
  | none => none

/-! ## What is read is read off the text -/

/-- The rest of a text after some of it has been read. -/
structure Reads (cs rest : List Char) : Prop where
  suffix : rest <:+ cs
  shorter : rest.length < cs.length

variable {cs rest : List Char} {fuel : ℕ}

theorem Reads.trans {cs middle rest : List Char} (h : Reads cs middle) (h' : rest <:+ middle) :
    Reads cs rest :=
  ⟨h'.trans h.suffix, lt_of_le_of_lt h'.length_le h.shorter⟩

theorem Reads.cons (c : Char) (h : rest <:+ cs) : Reads (c :: cs) rest :=
  ⟨h.trans (List.suffix_cons c cs), Nat.lt_succ_of_le h.length_le⟩

theorem skipSpace_suffix (cs : List Char) : skipSpace cs <:+ cs := List.dropWhile_suffix isSpace

theorem Reads.of_skipSpace (h : Reads (skipSpace cs) rest) : Reads cs rest :=
  ⟨h.suffix.trans (skipSpace_suffix cs), lt_of_lt_of_le h.shorter (skipSpace_suffix cs).length_le⟩

theorem reads_of_skipSpace_eq {c : Char} {tail : List Char} (h : skipSpace cs = c :: tail) :
    Reads cs tail := by
  apply Reads.of_skipSpace
  rw [h]
  exact .cons c (List.suffix_refl tail)

theorem stringRest_suffix {units : List ℕ} (h : stringRest cs = some (units, rest)) :
    rest <:+ cs := by
  induction cs using stringRest.induct generalizing units with
  | case1 => cases h
  | case2 cs =>
    obtain ⟨-, rfl⟩ := Prod.mk.inj (Option.some.inj h)
    exact List.suffix_cons _ _
  | case3 a b c d cs ih =>
    rw [stringRest] at h
    obtain ⟨unit, -, h⟩ := Option.bind_eq_some_iff.mp h
    obtain ⟨⟨units', rest'⟩, hrest, heq⟩ := Option.bind_eq_some_iff.mp h
    obtain ⟨-, rfl⟩ := Prod.mk.inj (Option.some.inj heq)
    exact (ih hrest).trans ⟨['\\', 'u', a, b, c, d], rfl⟩
  | case4 c cs hunicode ih =>
    rw [stringRest] at h
    · obtain ⟨unit, -, h⟩ := Option.bind_eq_some_iff.mp h
      obtain ⟨⟨units', rest'⟩, hrest, heq⟩ := Option.bind_eq_some_iff.mp h
      obtain ⟨-, rfl⟩ := Prod.mk.inj (Option.some.inj heq)
      exact (ih hrest).trans ⟨['\\', c], rfl⟩
    · exact hunicode
  | case5 c cs hquote hunicode hescape hcontrol =>
    rw [stringRest, if_pos hcontrol] at h
    · cases h
    · exact hquote
    · exact hunicode
    · exact hescape
  | case6 c cs hquote hunicode hescape hcontrol ih =>
    rw [stringRest, if_neg hcontrol] at h
    · obtain ⟨⟨units', rest'⟩, hrest, heq⟩ := Option.bind_eq_some_iff.mp h
      obtain ⟨-, rfl⟩ := Prod.mk.inj (Option.some.inj heq)
      exact (ih hrest).trans (List.suffix_cons c cs)
    · exact hquote
    · exact hunicode
    · exact hescape

theorem isNumber_nil : isNumber [] = false := by decide

theorem word_reads {json : Json} (h : word cs = some (json, rest)) : Reads cs rest := by
  have hdrop : ∀ {name : String}, name.toList ≠ [] → name.toList.isPrefixOf cs →
      Reads cs (cs.drop name.toList.length) := by
    intro name hname hbegins
    refine ⟨List.drop_suffix _ _, ?_⟩
    have hle := (List.isPrefixOf_iff_prefix.mp hbegins).length_le
    have hpos := List.length_pos_iff.mpr hname
    rw [List.length_drop]
    omega
  rw [word] at h
  split_ifs at h with hnull htrue hfalse hnumber
  · obtain ⟨-, rfl⟩ := Prod.mk.inj (Option.some.inj h)
    exact @hdrop "null" (by decide) hnull
  · obtain ⟨-, rfl⟩ := Prod.mk.inj (Option.some.inj h)
    exact @hdrop "true" (by decide) htrue
  · obtain ⟨-, rfl⟩ := Prod.mk.inj (Option.some.inj h)
    exact @hdrop "false" (by decide) hfalse
  · obtain ⟨-, rfl⟩ := Prod.mk.inj (Option.some.inj h)
    refine ⟨List.dropWhile_suffix _, ?_⟩
    have hsplit := congrArg List.length (List.takeWhile_append_dropWhile (p := isNumberChar) (l := cs))
    have hpos : 0 < (cs.takeWhile isNumberChar).length := by
      apply List.length_pos_iff.mpr
      intro hnil
      rw [hnil, isNumber_nil] at hnumber
      cases hnumber
    rw [List.length_append] at hsplit
    omega

/-- A reader of values, of items or of fields, with so much fuel. -/
def IsReader {α : Type} (read : List Char → Option (α × List Char)) : Prop :=
  ∀ ⦃cs rest : List Char⦄ ⦃a : α⦄, read cs = some (a, rest) → Reads cs rest

theorem map_reads {α β : Type} {read : List Char → Option (α × List Char)} {f : α → β} {b : β}
    (hread : IsReader read)
    (h : (read cs).map (fun found => (f found.1, found.2)) = some (b, rest)) : Reads cs rest := by
  obtain ⟨⟨a, rest'⟩, hfound, heq⟩ := Option.map_eq_some_iff.mp h
  obtain ⟨-, rfl⟩ := Prod.mk.inj heq
  exact hread hfound

theorem value_succ_reads (hitems : IsReader (items fuel)) (hfields : IsReader (fields fuel)) :
    IsReader (value (fuel + 1)) := by
  intro cs rest json h
  rw [value] at h
  apply Reads.of_skipSpace
  split at h
  · rename_i cs' heq
    rw [heq]
    obtain ⟨⟨units, rest'⟩, hfound, hsome⟩ := Option.map_eq_some_iff.mp h
    obtain ⟨-, rfl⟩ := Prod.mk.inj hsome
    exact .cons _ (stringRest_suffix hfound)
  · rename_i cs' heq
    rw [heq]
    apply Reads.cons
    split at h
    · rename_i rest' heq'
      obtain ⟨-, rfl⟩ := Prod.mk.inj (Option.some.inj h)
      exact (reads_of_skipSpace_eq heq').suffix
    · exact (map_reads hitems h).of_skipSpace.suffix
  · rename_i cs' heq
    rw [heq]
    apply Reads.cons
    split at h
    · rename_i rest' heq'
      obtain ⟨-, rfl⟩ := Prod.mk.inj (Option.some.inj h)
      exact (reads_of_skipSpace_eq heq').suffix
    · exact (map_reads hfields h).of_skipSpace.suffix
  · exact word_reads h

theorem items_succ_reads (hvalue : IsReader (value fuel)) (hitems : IsReader (items fuel)) :
    IsReader (items (fuel + 1)) := by
  intro cs rest found h
  rw [items] at h
  split at h
  · cases h
  · rename_i item cs' heq
    apply (hvalue heq).trans
    split at h
    · rename_i cs'' heq'
      exact ((reads_of_skipSpace_eq heq').trans (map_reads hitems h).suffix).suffix
    · rename_i rest' heq'
      obtain ⟨-, rfl⟩ := Prod.mk.inj (Option.some.inj h)
      exact (reads_of_skipSpace_eq heq').suffix
    · cases h

theorem fields_succ_reads (hvalue : IsReader (value fuel)) (hfields : IsReader (fields fuel)) :
    IsReader (fields (fuel + 1)) := by
  intro cs rest found h
  rw [fields] at h
  split at h
  · rename_i named hquote
    apply (reads_of_skipSpace_eq hquote).trans
    split at h
    · cases h
    · rename_i name afterName hname
      apply List.IsSuffix.trans _ (stringRest_suffix hname)
      split at h
      · rename_i valued hcolon
        apply List.IsSuffix.trans _ (reads_of_skipSpace_eq hcolon).suffix
        split at h
        · cases h
        · rename_i item afterItem hitem
          apply List.IsSuffix.trans _ (hvalue hitem).suffix
          split at h
          · rename_i more hcomma
            exact (map_reads hfields h).suffix.trans (reads_of_skipSpace_eq hcomma).suffix
          · rename_i rest' hbrace
            obtain ⟨-, rfl⟩ := Prod.mk.inj (Option.some.inj h)
            exact (reads_of_skipSpace_eq hbrace).suffix
          · cases h
      · cases h
  · cases h

theorem readers (fuel : ℕ) :
    IsReader (value fuel) ∧ IsReader (items fuel) ∧ IsReader (fields fuel) := by
  induction fuel with
  | zero =>
    refine ⟨?_, ?_, ?_⟩
    · intro cs rest a h
      cases h
    · intro cs rest a h
      cases h
    · intro cs rest a h
      cases h
  | succ fuel ih =>
    obtain ⟨hvalue, hitems, hfields⟩ := ih
    exact ⟨value_succ_reads hitems hfields, items_succ_reads hvalue hitems,
      fields_succ_reads hvalue hfields⟩

/-! ## The fuel is enough -/

theorem value_fuel_step (hitems : ∀ cs, 2 * cs.length + 1 < fuel → items (fuel + 1) cs = items fuel cs)
    (hfields : ∀ cs, 2 * cs.length + 1 < fuel → fields (fuel + 1) cs = fields fuel cs)
    (hfuel : 2 * cs.length < fuel + 1) : value (fuel + 2) cs = value (fuel + 1) cs := by
  have hless : ∀ {c : Char} {tail : List Char}, skipSpace cs = c :: tail →
      2 * (skipSpace tail).length + 1 < fuel := by
    intro c tail h
    have htail := (reads_of_skipSpace_eq h).shorter
    have hskip := (skipSpace_suffix tail).length_le
    omega
  rw [value.eq_def (fuel + 2), value.eq_def (fuel + 1)]
  simp only
  split
  · rfl
  · rename_i tail heq
    split
    · rfl
    · rw [hitems _ (hless heq)]
  · rename_i tail heq
    split
    · rfl
    · rw [hfields _ (hless heq)]
  · rfl

theorem items_fuel_step (hvalue : ∀ cs, 2 * cs.length < fuel → value (fuel + 1) cs = value fuel cs)
    (hitems : ∀ cs, 2 * cs.length + 1 < fuel → items (fuel + 1) cs = items fuel cs)
    (hfuel : 2 * cs.length + 1 < fuel + 1) : items (fuel + 2) cs = items (fuel + 1) cs := by
  rw [items.eq_def (fuel + 2), items.eq_def (fuel + 1)]
  simp only
  rw [hvalue cs (by omega)]
  split
  · rfl
  · rename_i item cs' heq
    split
    · rename_i tail heq'
      have hcs' := ((readers fuel).1 heq).shorter
      have htail := (reads_of_skipSpace_eq heq').shorter
      rw [hitems tail (by omega)]
    · rfl
    · rfl

theorem fields_fuel_step (hvalue : ∀ cs, 2 * cs.length < fuel → value (fuel + 1) cs = value fuel cs)
    (hfields : ∀ cs, 2 * cs.length + 1 < fuel → fields (fuel + 1) cs = fields fuel cs)
    (hfuel : 2 * cs.length + 1 < fuel + 1) : fields (fuel + 2) cs = fields (fuel + 1) cs := by
  rw [fields.eq_def (fuel + 2), fields.eq_def (fuel + 1)]
  simp only
  split
  · rename_i named hquote
    have hnamed := (reads_of_skipSpace_eq hquote).shorter
    split
    · rfl
    · rename_i name afterName hname
      have hafterName := (stringRest_suffix hname).length_le
      split
      · rename_i valued hcolon
        have hvalued := (reads_of_skipSpace_eq hcolon).shorter
        rw [hvalue valued (by omega)]
        split
        · rfl
        · rename_i item afterItem hitem
          have hafterItem := ((readers fuel).1 hitem).shorter
          split
          · rename_i more hcomma
            have hmore := (reads_of_skipSpace_eq hcomma).shorter
            rw [hfields more (by omega)]
          · rfl
          · rfl
      · rfl
  · rfl

theorem fuel_step (fuel : ℕ) :
    (∀ cs, 2 * cs.length < fuel → value (fuel + 1) cs = value fuel cs) ∧
      (∀ cs, 2 * cs.length + 1 < fuel → items (fuel + 1) cs = items fuel cs) ∧
        ∀ cs, 2 * cs.length + 1 < fuel → fields (fuel + 1) cs = fields fuel cs := by
  induction fuel with
  | zero =>
    refine ⟨?_, ?_, ?_⟩
    · intro cs h
      omega
    · intro cs h
      omega
    · intro cs h
      omega
  | succ fuel ih =>
    obtain ⟨hvalue, hitems, hfields⟩ := ih
    exact ⟨fun cs => value_fuel_step hitems hfields, fun cs => items_fuel_step hvalue hitems,
      fun cs => fields_fuel_step hvalue hfields⟩

/-- Any more fuel reads the same. -/
theorem value_fuel (hfuel : 2 * cs.length < fuel) : value fuel cs = value (2 * cs.length + 1) cs := by
  induction fuel with
  | zero => omega
  | succ fuel ih =>
    by_cases hlast : 2 * cs.length = fuel
    · rw [hlast]
    · have hless : 2 * cs.length < fuel := by omega
      rw [(fuel_step fuel).1 cs hless, ih hless]

/-! ## Texts that are read -/

/-- A character that stands for itself in a string. -/
def Plain (c : Char) : Prop := c ≠ '"' ∧ c ≠ '\\' ∧ 32 ≤ c.toNat

instance (c : Char) : Decidable (Plain c) := inferInstanceAs (Decidable (_ ∧ _))

theorem stringRest_plain {text : List Char} (h : ∀ c ∈ text, Plain c) (rest : List Char) :
    stringRest (text ++ '"' :: rest) = some (text.flatMap utf16, rest) := by
  induction text with
  | nil => rfl
  | cons c text ih =>
    obtain ⟨hquote, hbackslash, hcontrol⟩ := h c List.mem_cons_self
    rw [List.cons_append, stringRest, if_neg (Nat.not_lt.mpr hcontrol),
      ih fun d hd => h d (List.mem_cons_of_mem c hd)]
    · rfl
    · exact hquote
    · intro _ _ _ _ _ hslash
      exact absurd hslash hbackslash
    · intro _ _ hslash
      exact absurd hslash hbackslash

theorem value_string {text : List Char} (h : ∀ c ∈ text, Plain c) (rest : List Char) :
    value (fuel + 1) ('"' :: (text ++ '"' :: rest)) =
      some (.string (text.flatMap utf16), rest) := by
  have hskip : skipSpace ('"' :: (text ++ '"' :: rest)) = '"' :: (text ++ '"' :: rest) := rfl
  rw [value, hskip]
  simp only
  rw [stringRest_plain h]
  rfl

theorem value_space (fuel : ℕ) (cs : List Char) : value fuel (' ' :: cs) = value fuel cs := by
  cases fuel with
  | zero => rfl
  | succ fuel =>
    have hskip : skipSpace (' ' :: cs) = skipSpace cs := rfl
    rw [value, value, hskip]

theorem isNumberChar_cases {c : Char} (h : isNumberChar c) :
    isSpace c = false ∧ c ≠ '"' ∧ c ≠ '[' ∧ c ≠ '{' ∧ c ≠ 'n' ∧ c ≠ 't' ∧ c ≠ 'f' := by
  refine ⟨?_, ?_, ?_, ?_, ?_, ?_, ?_⟩
  · by_contra hspace
    rw [Bool.not_eq_false, isSpace] at hspace
    simp only [Bool.or_eq_true, decide_eq_true_eq] at hspace
    obtain ((rfl | rfl) | rfl) | rfl := hspace
    · revert h; decide
    · revert h; decide
    · revert h; decide
    · revert h; decide
  all_goals
    rintro rfl
    revert h
    decide

theorem isPrefixOf_cons_ne {name : List Char} {c d : Char} (h : d ≠ c) (cs : List Char) :
    (d :: name).isPrefixOf (c :: cs) = false := by
  rw [List.isPrefixOf_cons_cons, beq_eq_false_iff_ne.mpr h, Bool.false_and]

theorem value_number {literal : List Char} (hnumber : isNumber literal)
    (hchars : ∀ c ∈ literal, isNumberChar c) (hrest : ∀ c ∈ rest.head?, isNumberChar c = false) :
    value (fuel + 1) (literal ++ rest) = some (.number literal, rest) := by
  cases literal with
  | nil => cases isNumber_nil.symm.trans hnumber
  | cons c literal =>
    obtain ⟨hspace, hquote, hbracket, hbrace, hn, ht, hf⟩ :=
      isNumberChar_cases (hchars c List.mem_cons_self)
    have hskip : skipSpace (c :: (literal ++ rest)) = c :: (literal ++ rest) := by
      rw [skipSpace, List.dropWhile_cons_of_neg]
      exact Bool.eq_false_iff.mp hspace
    obtain ⟨htake, hdrop⟩ := takeWhile_append_stop (c :: literal) hrest
    rw [List.takeWhile_eq_self_iff.mpr hchars, List.cons_append] at htake
    rw [List.dropWhile_eq_nil_iff.mpr hchars, List.cons_append, List.nil_append] at hdrop
    have hword : word (c :: (literal ++ rest)) = some (.number (c :: literal), rest) := by
      have hnull : "null".toList.isPrefixOf (c :: (literal ++ rest)) = false :=
        isPrefixOf_cons_ne hn.symm _
      have htrue : "true".toList.isPrefixOf (c :: (literal ++ rest)) = false :=
        isPrefixOf_cons_ne ht.symm _
      have hfalse : "false".toList.isPrefixOf (c :: (literal ++ rest)) = false :=
        isPrefixOf_cons_ne hf.symm _
      rw [word, hnull, htrue, hfalse, htake, hdrop, if_pos hnumber]
      rfl
    rw [List.cons_append, value, hskip]
    split
    · rename_i heq
      exact absurd (List.cons.inj heq).1 hquote
    · rename_i heq
      exact absurd (List.cons.inj heq).1 hbracket
    · rename_i heq
      exact absurd (List.cons.inj heq).1 hbrace
    · exact hword

theorem items_comma {item : Json} {more : List Char} {found : List Json}
    (hitem : value fuel cs = some (item, ',' :: more))
    (hmore : items fuel more = some (found, rest)) :
    items (fuel + 1) cs = some (item :: found, rest) := by
  have hskip : skipSpace (',' :: more) = ',' :: more := rfl
  rw [items, hitem]
  simp only
  rw [hskip]
  simp only
  rw [hmore]
  rfl

theorem items_last {item : Json} (hitem : value fuel cs = some (item, ']' :: rest)) :
    items (fuel + 1) cs = some ([item], rest) := by
  have hskip : skipSpace (']' :: rest) = ']' :: rest := rfl
  rw [items, hitem]
  simp only
  rw [hskip]
  rfl

/-- An array whose first item is a string. -/
theorem parse_array {found : List Json}
    (h : items (2 * ('[' :: '"' :: cs).length) ('"' :: cs) = some (found, [])) :
    parse ('[' :: '"' :: cs) = some (.array found) := by
  have hskip : skipSpace ('[' :: '"' :: cs) = '[' :: '"' :: cs := rfl
  have hskip' : skipSpace ('"' :: cs) = '"' :: cs := rfl
  have hvalue : value (2 * ('[' :: '"' :: cs).length + 1) ('[' :: '"' :: cs) =
      some (.array found, []) := by
    rw [value, hskip]
    simp only
    rw [hskip']
    refine (?_ : (items (2 * ('[' :: '"' :: cs).length) ('"' :: cs)).map _ = _)
    rw [h]
    rfl
  rw [parse, hvalue]
  rfl

/-! ## The bracket after the items -/

theorem bracket_mem_items {found : List Json} (h : items fuel cs = some (found, rest)) :
    ']' ∈ cs := by
  induction fuel generalizing cs found rest with
  | zero => cases h
  | succ fuel ih =>
    rw [items] at h
    split at h
    · cases h
    · rename_i item cs' heq
      apply ((readers fuel).1 heq).suffix.mem
      split at h
      · rename_i cs'' heq'
        obtain ⟨⟨more, rest'⟩, hmore, -⟩ := Option.map_eq_some_iff.mp h
        exact (reads_of_skipSpace_eq heq').suffix.mem (ih hmore)
      · rename_i rest' heq'
        apply (skipSpace_suffix cs').mem
        rw [heq']
        exact List.mem_cons_self
      · cases h

/-- A text that begins as an array does is no value without a closing bracket. -/
theorem bracket_mem_of_parse {json : Json} (h : parse ('[' :: cs) = some json) : ']' ∈ cs := by
  rw [parse] at h
  split at h
  · rename_i json' rest heq
    have hskip : skipSpace ('[' :: cs) = '[' :: cs := rfl
    rw [value, hskip] at heq
    simp only at heq
    apply (skipSpace_suffix cs).mem
    split at heq
    · rename_i rest' hrest
      rw [hrest]
      exact List.mem_cons_self
    · obtain ⟨⟨found, rest'⟩, hfound, -⟩ := Option.map_eq_some_iff.mp heq
      exact bracket_mem_items hfound
  · cases h

end NumentaApps.JsonParse
