import Mathlib.Data.Int.Notation
import Mathlib.Data.List.Forall2
import Mathlib.Data.List.Perm.Basic

/-!
# Reading JSON as a stream

The tokens of a JSON value, and a reader that is told what to expect of them. An object may have
its fields in any order. A loop over the rest of an array or of an object has one rule.
-/
namespace NumentaApps.JsonReader

/-- A JSON value, with its numbers as they are written. -/
inductive Json where
  | string (text : String)
  | number (literal : String)
  | array (items : List Json)
  | object (fields : List (String × Json))

inductive Bracket where
  | beginArray
  | endArray
  | beginObject
  | endObject
  deriving DecidableEq, Repr

inductive Token where
  | bracket (bracket : Bracket)
  | name (text : String)
  | string (text : String)
  | number (literal : String)
  deriving DecidableEq, Repr

/-- What reading raises. -/
inductive ReadException where
  | endOfInput
  | illegalState
  | numberFormat
  | nullPointer
  deriving DecidableEq, Repr

mutual

def Json.tokens : Json → List Token
  | .string text => [.string text]
  | .number literal => [.number literal]
  | .array items => .bracket .beginArray :: (itemTokens items ++ [.bracket .endArray])
  | .object fields => .bracket .beginObject :: (fieldTokens fields ++ [.bracket .endObject])

def itemTokens : List Json → List Token
  | [] => []
  | item :: items => item.tokens ++ itemTokens items

def fieldTokens : List (String × Json) → List Token
  | [] => []
  | (name, value) :: fields => .name name :: (value.tokens ++ fieldTokens fields)

end

/-! ## Objects with their fields in another order -/

mutual

/-- The same value, its objects with their fields in any order. -/
inductive Json.Same : Json → Json → Prop
  | string (text : String) : Json.Same (.string text) (.string text)
  | number (literal : String) : Json.Same (.number literal) (.number literal)
  | array {items items' : List Json} (h : SameItems items items') :
      Json.Same (.array items) (.array items')
  | object {fields order fields' : List (String × Json)} (horder : fields.Perm order)
      (h : SameFields order fields') : Json.Same (.object fields) (.object fields')

inductive SameItems : List Json → List Json → Prop
  | nil : SameItems [] []
  | cons {item item' : Json} {items items' : List Json} (h : Json.Same item item')
      (hs : SameItems items items') : SameItems (item :: items) (item' :: items')

inductive SameFields : List (String × Json) → List (String × Json) → Prop
  | nil : SameFields [] []
  | cons {name : String} {value value' : Json} {fields fields' : List (String × Json)}
      (h : Json.Same value value') (hs : SameFields fields fields') :
      SameFields ((name, value) :: fields) ((name, value') :: fields')

end

/-! ## The reader -/

/-- Reads a bracket of an array or of an object. -/
def expect (bracket : Bracket) : List Token → Except ReadException (List Token)
  | [] => .error .endOfInput
  | .bracket found :: tokens => if found = bracket then .ok tokens else .error .illegalState
  | _ :: _ => .error .illegalState

def beginArray : List Token → Except ReadException (List Token) :=
  expect .beginArray

def endArray : List Token → Except ReadException (List Token) := expect .endArray

def beginObject : List Token → Except ReadException (List Token) :=
  expect .beginObject

def endObject : List Token → Except ReadException (List Token) :=
  expect .endObject

/-- Whether the array or the object goes on. -/
def hasNext : List Token → Except ReadException Bool
  | [] => .error .endOfInput
  | .bracket .endArray :: _ => .ok false
  | .bracket .endObject :: _ => .ok false
  | _ :: _ => .ok true

def nextName : List Token → Except ReadException (String × List Token)
  | [] => .error .endOfInput
  | .name text :: tokens => .ok (text, tokens)
  | _ :: _ => .error .illegalState

/-- How many more brackets are open after a token. -/
def depth : Token → ℤ
  | .bracket .beginArray | .bracket .beginObject => 1
  | .bracket .endArray | .bracket .endObject => -1
  | .name _ | .string _ | .number _ => 0

/-- Reads on until as many brackets are closed as are opened. -/
def skipFrom (count : ℤ) : List Token → Except ReadException (List Token)
  | [] => .error .endOfInput
  | token :: tokens =>
    if count + depth token = 0 then .ok tokens else skipFrom (count + depth token) tokens

def skipValue : List Token → Except ReadException (List Token) := skipFrom 0

/-- `while (reader.hasNext())`. Each pass reads a token at least, so that there are no more passes
than tokens. -/
def whileHasNext {S : Type}
    (body : S → List Token → Except ReadException (S × List Token)) :
    ℕ → S → List Token → Except ReadException (S × List Token)
  | 0, _, _ => .error .endOfInput
  | passes + 1, s, tokens => do
    if ← hasNext tokens then
      let (s, tokens) ← body s tokens
      whileHasNext body passes s tokens
    else return (s, tokens)

/-! ## Skipping a value -/

theorem skipFrom_cons_of_ne {count : ℤ} {token : Token} (tokens : List Token)
    (h : count + depth token ≠ 0) :
    skipFrom count (token :: tokens) = skipFrom (count + depth token) tokens := by
  rw [skipFrom, if_neg h]

mutual

/-- A whole value leaves the count as it is. -/
theorem skipFrom_tokens {count : ℤ} (hcount : 0 < count) (rest : List Token) :
    ∀ value : Json, skipFrom count (value.tokens ++ rest) = skipFrom count rest
  | .string text => by
    apply (skipFrom_cons_of_ne _ (by simp only [depth]; omega)).trans
    rw [depth, Int.add_zero]
    rfl
  | .number literal => by
    apply (skipFrom_cons_of_ne _ (by simp only [depth]; omega)).trans
    rw [depth, Int.add_zero]
    rfl
  | .array items => by
    rw [Json.tokens, List.cons_append, List.append_assoc]
    apply (skipFrom_cons_of_ne _ (by simp only [depth]; omega)).trans
    apply (skipFrom_itemTokens (by simp only [depth]; omega) _ items).trans
    apply (skipFrom_cons_of_ne _ (by simp only [depth]; omega)).trans
    simp only [depth, Int.add_neg_cancel_right]
    rfl
  | .object fields => by
    rw [Json.tokens, List.cons_append, List.append_assoc]
    apply (skipFrom_cons_of_ne _ (by simp only [depth]; omega)).trans
    apply (skipFrom_fieldTokens (by simp only [depth]; omega) _ fields).trans
    apply (skipFrom_cons_of_ne _ (by simp only [depth]; omega)).trans
    simp only [depth, Int.add_neg_cancel_right]
    rfl

theorem skipFrom_itemTokens {count : ℤ} (hcount : 0 < count) (rest : List Token) :
    ∀ items : List Json,
      skipFrom count (itemTokens items ++ rest) = skipFrom count rest
  | [] => rfl
  | item :: items => by
    rw [itemTokens, List.append_assoc, skipFrom_tokens hcount _ item,
      skipFrom_itemTokens hcount rest items]

theorem skipFrom_fieldTokens {count : ℤ} (hcount : 0 < count) (rest : List Token) :
    ∀ fields : List (String × Json),
      skipFrom count (fieldTokens fields ++ rest) = skipFrom count rest
  | [] => rfl
  | (name, value) :: fields => by
    rw [fieldTokens, List.cons_append, List.append_assoc]
    apply (skipFrom_cons_of_ne _ (by simp only [depth]; omega)).trans
    rw [depth, Int.add_zero, skipFrom_tokens hcount _ value, skipFrom_fieldTokens hcount rest fields]

end

theorem skipValue_tokens (value : Json) (rest : List Token) :
    skipValue (value.tokens ++ rest) = .ok rest := by
  cases value with
  | string text => rfl
  | number literal => rfl
  | array items =>
    rw [Json.tokens, List.cons_append, List.append_assoc]
    apply (skipFrom_itemTokens Int.one_pos _ items).trans
    rfl
  | object fields =>
    rw [Json.tokens, List.cons_append, List.append_assoc]
    apply (skipFrom_fieldTokens Int.one_pos _ fields).trans
    rfl

/-! ## Loops -/

section
variable {S : Type} {body : S → List Token → Except ReadException (S × List Token)}

theorem whileHasNext_stop {s : S} {tokens : List Token} {passes : ℕ} (h : hasNext tokens = .ok false)
    (hpasses : 0 < passes) : whileHasNext body passes s tokens = .ok (s, tokens) := by
  obtain ⟨passes, rfl⟩ := Nat.exists_eq_succ_of_ne_zero (Nat.ne_of_gt hpasses)
  rw [whileHasNext, h]
  rfl

theorem whileHasNext_pass {s s' : S} {tokens tokens' : List Token} {passes : ℕ}
    (h : hasNext tokens = .ok true) (hbody : body s tokens = .ok (s', tokens')) :
    whileHasNext body (passes + 1) s tokens = whileHasNext body passes s' tokens' := by
  have hpass : whileHasNext body (passes + 1) s tokens =
      body s tokens >>= fun p => whileHasNext body passes p.1 p.2 := by
    rw [whileHasNext, h]
    rfl
  rw [hpass, hbody]
  rfl

end

/-- An item is not the end of its array. -/
theorem hasNext_tokens (value : Json) (rest : List Token) :
    hasNext (value.tokens ++ rest) = .ok true := by
  cases value with
  | string text => rfl
  | number literal => rfl
  | array items =>
    rw [Json.tokens]
    rfl
  | object fields =>
    rw [Json.tokens]
    rfl

theorem tokens_length_pos (value : Json) : 0 < value.tokens.length := by
  cases value with
  | string text => exact Nat.one_pos
  | number literal => exact Nat.one_pos
  | array items =>
    rw [Json.tokens]
    exact Nat.succ_pos _
  | object fields =>
    rw [Json.tokens]
    exact Nat.succ_pos _

theorem length_le_itemTokens (items : List Json) :
    items.length ≤ (itemTokens items).length := by
  induction items with
  | nil => exact Nat.le_refl 0
  | cons item items ih =>
    have hitem := tokens_length_pos item
    rw [itemTokens, List.length_append, List.length_cons]
    omega

/-- A loop that reads two values and finds the end. -/
theorem whileHasNext_two {S : Type} {body : S → List Token → Except ReadException (S × List Token)}
    {s s₁ s₂ : S} {tokens tokens₁ tokens₂ : List Token} {passes : ℕ}
    (h : hasNext tokens = .ok true) (hbody : body s tokens = .ok (s₁, tokens₁))
    (h₁ : hasNext tokens₁ = .ok true) (hbody₁ : body s₁ tokens₁ = .ok (s₂, tokens₂))
    (h₂ : hasNext tokens₂ = .ok false) (hpasses : 2 < passes) :
    whileHasNext body passes s tokens = .ok (s₂, tokens₂) := by
  obtain ⟨passes, rfl⟩ := Nat.exists_eq_add_of_le' hpasses
  apply (whileHasNext_pass h hbody).trans
  apply (whileHasNext_pass h₁ hbody₁).trans
  exact whileHasNext_stop h₂ (Nat.succ_pos passes)

/-- A loop over the fields of an object that has two. -/
theorem whileHasNext_pair {S : Type} {body : S → List Token → Except ReadException (S × List Token)}
    {s s₁ s₂ : S} {name name' : String} {value value' : Json} {rest : List Token} {passes : ℕ}
    (hbody : body s (.name name :: (value.tokens ++
      .name name' :: (value'.tokens ++ .bracket .endObject :: rest))) =
      .ok (s₁, .name name' :: (value'.tokens ++ .bracket .endObject :: rest)))
    (hbody' : body s₁ (.name name' :: (value'.tokens ++ .bracket .endObject :: rest)) =
      .ok (s₂, .bracket .endObject :: rest)) (hpasses : 2 < passes) :
    whileHasNext body passes s
      (fieldTokens [(name, value), (name', value')] ++ .bracket .endObject :: rest) =
      .ok (s₂, .bracket .endObject :: rest) := by
  simp only [fieldTokens, List.cons_append, List.append_assoc, List.nil_append]
  exact whileHasNext_two rfl hbody rfl hbody' rfl hpasses

theorem two_lt_fieldTokens (name name' : String) (value value' : Json) (rest : List Token) :
    2 < (fieldTokens [(name, value), (name', value')] ++ .bracket .endObject :: rest).length := by
  simp only [fieldTokens, List.cons_append, List.length_cons, List.length_append]
  omega

/-- A loop over the items of an array, each read by one pass, keeps what each pass keeps. -/
theorem whileHasNext_items {S α : Type}
    {body : S → List Token → Except ReadException (S × List Token)} {R : α → Json → Prop}
    {I : S → List α → Prop} {xs : List α} {items : List Json} {rest : List Token}
    (hitems : List.Forall₂ R xs items)
    (hstep : ∀ s done x item rest, R x item → I s done →
      ∃ s', body s (item.tokens ++ rest) = .ok (s', rest) ∧ I s' (done ++ [x]))
    (hrest : hasNext rest = .ok false) {s : S} {done : List α} {passes : ℕ}
    (hpasses : items.length < passes) (h : I s done) :
    ∃ s', whileHasNext body passes s (itemTokens items ++ rest) = .ok (s', rest) ∧
      I s' (done ++ xs) := by
  induction hitems generalizing s done passes with
  | nil =>
    exact ⟨s, whileHasNext_stop hrest (Nat.zero_lt_of_lt hpasses), by rwa [List.append_nil]⟩
  | @cons x item xs items hx hxs ih =>
    obtain ⟨passes, rfl⟩ := Nat.exists_eq_succ_of_ne_zero (Nat.ne_zero_of_lt hpasses)
    obtain ⟨s', hbody, hI⟩ := hstep s done x item (itemTokens items ++ rest) hx h
    obtain ⟨s'', hloop, hI'⟩ := ih (Nat.lt_of_succ_lt_succ hpasses) hI
    refine ⟨s'', ?_, by rwa [List.append_assoc] at hI'⟩
    rw [itemTokens, List.append_assoc, whileHasNext_pass (hasNext_tokens item _) hbody]
    exact hloop

/-! ## The same value -/

mutual

theorem Json.Same.refl : ∀ value : Json, Json.Same value value
  | .string text => .string text
  | .number literal => .number literal
  | .array items => .array (SameItems.refl items)
  | .object fields => .object (List.Perm.refl fields) (SameFields.refl fields)

theorem SameItems.refl : ∀ items : List Json, SameItems items items
  | [] => .nil
  | item :: items => .cons (Json.Same.refl item) (SameItems.refl items)

theorem SameFields.refl : ∀ fields : List (String × Json), SameFields fields fields
  | [] => .nil
  | (_, value) :: fields => .cons (Json.Same.refl value) (SameFields.refl fields)

end

theorem sameItems_forall₂ {items items' : List Json} (h : SameItems items items') :
    List.Forall₂ Json.Same items items' := by
  induction items generalizing items' with
  | nil =>
    cases h
    exact .nil
  | cons item items ih =>
    cases h with
    | cons hitem hitems => exact .cons hitem (ih hitems)

theorem same_array {items : List Json} {value : Json} (h : Json.Same (.array items) value) :
    ∃ items', List.Forall₂ Json.Same items items' ∧ value = .array items' := by
  cases h with
  | array hitems => exact ⟨_, sameItems_forall₂ hitems, rfl⟩

theorem same_string {text : String} {value : Json} (h : Json.Same (.string text) value) :
    value = .string text := by
  cases h
  rfl

theorem same_number {literal : String} {value : Json} (h : Json.Same (.number literal) value) :
    value = .number literal := by
  cases h
  rfl

theorem perm_pair {α : Type} {a b : α} {order : List α} (h : [a, b].Perm order) :
    order = [a, b] ∨ order = [b, a] := by
  match order, h.length_eq with
  | [c, d], _ =>
    rcases List.mem_pair.mp (h.mem_iff.mpr List.mem_cons_self) with rfl | rfl
    · exact Or.inl (congrArg _ (List.perm_singleton.mp (List.Perm.cons_inv h).symm))
    · refine Or.inr (congrArg _ (List.perm_singleton.mp (List.Perm.cons_inv (a := c) ?_).symm))
      exact (List.Perm.swap _ _ _).trans h

theorem sameFields_pair {name name' : String} {value value' : Json} {fields : List (String × Json)}
    (h : SameFields [(name, value), (name', value')] fields) :
    ∃ found found', Json.Same value found ∧ Json.Same value' found' ∧
      fields = [(name, found), (name', found')] := by
  cases h with
  | cons hvalue h =>
    cases h with
    | cons hvalue' h =>
      cases h
      exact ⟨_, _, hvalue, hvalue', rfl⟩

/-- An object of two fields has the one or the other first. -/
theorem same_object_pair {name name' : String} {value value' object : Json}
    (h : Json.Same (.object [(name, value), (name', value')]) object) :
    ∃ found found', Json.Same value found ∧ Json.Same value' found' ∧
      (object = .object [(name, found), (name', found')] ∨
        object = .object [(name', found'), (name, found)]) := by
  cases h with
  | object horder hfields =>
    rcases perm_pair horder with rfl | rfl
    · obtain ⟨found, found', hfound, hfound', rfl⟩ := sameFields_pair hfields
      exact ⟨found, found', hfound, hfound', Or.inl rfl⟩
    · obtain ⟨found', found, hfound', hfound, rfl⟩ := sameFields_pair hfields
      exact ⟨found, found', hfound, hfound', Or.inr rfl⟩

end NumentaApps.JsonReader
