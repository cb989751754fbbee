import NumentaApps.NumericLiteral
import Mathlib.Algebra.Field.Rat
import Mathlib.Algebra.Order.Ring.Rat
import Mathlib.Data.Char
import Mathlib.Data.List.Basic
import Mathlib.Data.List.Forall2
import Mathlib.Data.List.Lex

/-!
# Conditions of an SQL query

The conditions considered are comparisons joined by `AND`, each of a column with a literal or with a
parameter. Their text is split into tokens by the lexical rules of SQLite: a text ends at its first
NUL, a quote within a string is written twice, and a number does not run into a name. A column holds
numbers or texts, or nothing, for which no comparison is true.
-/
namespace NumentaApps.SqlCondition

inductive Operator where
  | eq
  | le
  | ge
  deriving DecidableEq, Repr

inductive Token where
  | word (w : List Char)
  | number (q : ℚ)
  | string (t : List Char)
  | operator (op : Operator)
  | minus
  | parameter
  deriving DecidableEq

/-! ### Tokens -/

/-- What is being read. A number has so many digits after the point. -/
inductive Scan where
  | blank
  | word (w : List Char)
  | whole (n : ℕ)
  | fraction (n places : ℕ)
  | exponentMark (n places : ℕ)
  | exponentSign (n places : ℕ) (negative : Bool)
  | exponent (n places : ℕ) (negative : Bool) (e : ℕ)
  | string (t : List Char)
  | quote (t : List Char)
  | parameter
  | less
  | greater

def isSpace (c : Char) : Bool := c = ' ' || c = '\t' || c = '\n' || c = '\x0c' || c = '\r'

def isWordStart (c : Char) : Bool := c.isAlpha || c = '_' || 0x80 ≤ c.toNat

def isWordChar (c : Char) : Bool := isWordStart c || c.isDigit || c = '$'

def digit (c : Char) : ℕ := c.toNat - '0'.toNat

def decimal (n places : ℕ) (negative : Bool) (e : ℕ) : ℚ :=
  (n : ℚ) / 10 ^ places * if negative then (10 ^ e : ℚ)⁻¹ else 10 ^ e

/-- The next character, where no token is being read. -/
def blankStep (c : Char) : Option (List Token × Scan) :=
  if isSpace c then some ([], .blank)
  else if c.isDigit then some ([], .whole (digit c))
  else if isWordStart c then some ([], .word [c])
  else if c = '\'' then some ([], .string [])
  else if c = '?' then some ([], .parameter)
  else if c = '=' then some ([.operator .eq], .blank)
  else if c = '<' then some ([], .less)
  else if c = '>' then some ([], .greater)
  else if c = '-' then some ([.minus], .blank)
  else none

/-- A token ends before the next character. -/
def tokenThen (t : Token) (c : Char) : Option (List Token × Scan) :=
  (blankStep c).map fun next => (t :: next.1, next.2)

def step : Scan → Char → Option (List Token × Scan)
  | .blank, c => blankStep c
  | .word w, c => if isWordChar c then some ([], .word (w ++ [c])) else tokenThen (.word w) c
  | .whole n, c =>
    if c.isDigit then some ([], .whole (10 * n + digit c))
    else if c = '.' then some ([], .fraction n 0)
    else if c = 'e' ∨ c = 'E' then some ([], .exponentMark n 0)
    else if isWordChar c then none
    else tokenThen (.number n) c
  | .fraction n places, c =>
    if c.isDigit then some ([], .fraction (10 * n + digit c) (places + 1))
    else if c = 'e' ∨ c = 'E' then some ([], .exponentMark n places)
    else if isWordChar c then none
    else tokenThen (.number (decimal n places false 0)) c
  | .exponentMark n places, c =>
    if c.isDigit then some ([], .exponent n places false (digit c))
    else if c = '-' then some ([], .exponentSign n places true)
    else if c = '+' then some ([], .exponentSign n places false)
    else none
  | .exponentSign n places negative, c =>
    if c.isDigit then some ([], .exponent n places negative (digit c)) else none
  | .exponent n places negative e, c =>
    if c.isDigit then some ([], .exponent n places negative (10 * e + digit c))
    else if isWordChar c then none
    else tokenThen (.number (decimal n places negative e)) c
  | .string t, c => if c = '\'' then some ([], .quote t) else some ([], .string (t ++ [c]))
  | .quote t, c => if c = '\'' then some ([], .string (t ++ [c])) else tokenThen (.string t) c
  | .parameter, c => if c.isDigit then none else tokenThen .parameter c
  | .less, c => if c = '=' then some ([.operator .le], .blank) else none
  | .greater, c => if c = '=' then some ([.operator .ge], .blank) else none

def finish : Scan → Option (List Token)
  | .blank => some []
  | .word w => some [.word w]
  | .whole n => some [.number n]
  | .fraction n places => some [.number (decimal n places false 0)]
  | .exponentMark _ _ => none
  | .exponentSign _ _ _ => none
  | .exponent n places negative e => some [.number (decimal n places negative e)]
  | .string _ => none
  | .quote t => some [.string t]
  | .parameter => some [.parameter]
  | .less => none
  | .greater => none

def lex : Scan → List Char → Option (List Token)
  | scan, [] => finish scan
  | scan, c :: cs =>
    if c = '\x00' then finish scan
    else (step scan c).bind fun next => (lex next.2 cs).map (next.1 ++ ·)

/-! ### Conditions -/

inductive Operand where
  | number (q : ℚ)
  | text (t : List Char)
  | parameter
  | bound (argument : List Char)
  deriving DecidableEq

structure Comparison where
  column : List Char
  op : Operator
  operand : Operand
  deriving DecidableEq

def isAnd (w : List Char) : Bool := w.map Char.toUpper = ['A', 'N', 'D']

def operandOf : Token → Option Operand
  | .number q => some (.number q)
  | .string t => some (.text t)
  | .parameter => some .parameter
  | _ => none

/-- Names of columns are read without regard to case. -/
def columnName (w : List Char) : List Char := w.map Char.toLower

/-- The tokens of comparisons joined by `AND`. -/
def conjunction : List Token → Option (List Comparison)
  | [.word w, .operator op, t] => (operandOf t).map fun x => [⟨columnName w, op, x⟩]
  | [.word w, .operator op, .minus, .number q] => some [⟨columnName w, op, .number (-q)⟩]
  | .word w :: .operator op :: .minus :: .number q :: .word w' :: rest =>
    if isAnd w' then (conjunction rest).map (⟨columnName w, op, .number (-q)⟩ :: ·) else none
  | .word w :: .operator op :: t :: .word w' :: rest =>
    if isAnd w' then
      (operandOf t).bind fun x => (conjunction rest).map (⟨columnName w, op, x⟩ :: ·)
    else none
  | _ => none

/-- The columns with numbers and those with texts. -/
structure Columns where
  numbers : List (List Char)
  texts : List (List Char)

def Columns.accepts (columns : Columns) (x : Comparison) : Bool :=
  match x.operand with
  | .number _ => x.column ∈ columns.numbers
  | .text _ => x.column ∈ columns.texts
  | .parameter => x.column ∈ columns.numbers ∨ x.column ∈ columns.texts
  | .bound _ => x.column ∈ columns.numbers ∨ x.column ∈ columns.texts

def parse (columns : Columns) (text : List Char) : Option (List Comparison) :=
  (lex .blank text).bind fun tokens =>
    (conjunction tokens).bind fun xs => if xs.all columns.accepts then some xs else none

/-- Arguments take the places of the parameters in their order. -/
def bindArguments : List Comparison → List (List Char) → Option (List Comparison)
  | [], [] => some []
  | [], _ :: _ => none
  | x :: xs, arguments =>
    match x.operand, arguments with
    | .parameter, a :: arguments =>
      (bindArguments xs arguments).map ({ x with operand := .bound a } :: ·)
    | _, arguments => (bindArguments xs arguments).map (x :: ·)

structure Row where
  number : List Char → Option ℚ
  text : List Char → Option (List Char)

def Operator.holds {α : Type} [LE α] (op : Operator) (x y : α) : Prop :=
  match op with
  | .eq => x = y
  | .le => x ≤ y
  | .ge => y ≤ x

/-- An argument compared with a number is a number if it reads as one. A number is less than a text. -/
def numberOf (argument : List Char) : Option ℚ :=
  match lex .blank argument with
  | some [.number q] => some q
  | some [.minus, .number q] => some (-q)
  | _ => none

def holdsNumber (op : Operator) (x : ℚ) : Operand → Prop
  | .number q => op.holds x q
  | .text _ => op = .le
  | .parameter => False
  | .bound a =>
    match numberOf a with
    | some q => op.holds x q
    | none => op = .le

def holdsText (op : Operator) (x : List Char) : Operand → Prop
  | .number _ => False
  | .text t => op.holds x t
  | .parameter => False
  | .bound a => op.holds x a

def Comparison.holds (columns : Columns) (row : Row) (x : Comparison) : Prop :=
  if x.column ∈ columns.numbers then ∃ q, row.number x.column = some q ∧ holdsNumber x.op q x.operand
  else ∃ t, row.text x.column = some t ∧ holdsText x.op t x.operand

/-- A condition with its arguments is well formed, or empty, and it holds for these rows. -/
def Selects (columns : Columns) (selection : List Char) (arguments : List (List Char))
    (wanted : Row → Prop) : Prop :=
  if selection = [] then arguments = [] ∧ ∀ row, wanted row
  else ∃ xs ys, parse columns selection = some xs ∧ bindArguments xs arguments = some ys ∧
    ∀ row, (∀ y ∈ ys, y.holds columns row) ↔ wanted row

/-! ### Reading the tokens of a text -/

section Lexing
variable {scan scan' : Scan} {c : Char} {cs rest text text' : List Char} {t : Token}
  {tokens tokens' : List Token} {n places : ℕ}

/-- What may follow a token: nothing, or a blank. -/
def Ends (rest : List Char) : Prop := rest = [] ∨ ∃ cs, rest = ' ' :: cs

/-- The tokens of a text do not depend on what follows it. -/
def Lexes (text : List Char) (tokens : List Token) : Prop :=
  ∀ rest, Ends rest → lex .blank (text ++ rest) = (lex .blank rest).map (tokens ++ ·)

theorem lex_cons (hc : c ≠ '\x00') (hstep : step scan c = some ([], scan')) :
    lex scan (c :: cs) = lex scan' cs := by
  rw [lex, if_neg hc, hstep, Option.bind_some]
  simp

theorem lex_complete (hfinish : finish scan = some [t]) (hstep : step scan ' ' = some ([t], .blank))
    (hrest : Ends rest) : lex scan rest = (lex .blank rest).map ([t] ++ ·) := by
  rcases hrest with rfl | ⟨cs, rfl⟩
  · exact hfinish
  · rw [lex, if_neg (by decide), hstep, Option.bind_some, lex_cons (by decide) rfl]

theorem isDigit_ne_nul (h : c.isDigit) : c ≠ '\x00' := by
  intro heq
  subst heq
  exact absurd h (by decide)

theorem isDigit_not_isSpace (h : c.isDigit) : isSpace c = false := by
  apply Bool.eq_false_iff.mpr
  intro hspace
  simp only [isSpace, Bool.or_eq_true, decide_eq_true_eq] at hspace
  rcases hspace with (((rfl | rfl) | rfl) | rfl) | rfl <;> exact absurd h (by decide)

theorem step_blank_digit (h : c.isDigit) : step .blank c = some ([], .whole (digit c)) := by
  rw [step, blankStep, isDigit_not_isSpace h, h]
  rfl

theorem step_whole (h : c.isDigit) : step (.whole n) c = some ([], .whole (10 * n + digit c)) :=
  if_pos h

theorem step_fraction (h : c.isDigit) :
    step (.fraction n places) c = some ([], .fraction (10 * n + digit c) (places + 1)) :=
  if_pos h

theorem step_mark (h : c.isDigit) :
    step (.exponentMark n places) c = some ([], .exponent n places false (digit c)) :=
  if_pos h

theorem step_sign {negative : Bool} (h : c.isDigit) :
    step (.exponentSign n places negative) c = some ([], .exponent n places negative (digit c)) :=
  if_pos h

theorem step_exponent {negative : Bool} {e : ℕ} (h : c.isDigit) :
    step (.exponent n places negative e) c =
      some ([], .exponent n places negative (10 * e + digit c)) :=
  if_pos h

theorem step_word {w : List Char} (h : isWordChar c) : step (.word w) c = some ([], .word (w ++ [c])) :=
  if_pos h

theorem step_string {u : List Char} (h : c ≠ '\'') :
    step (.string u) c = some ([], .string (u ++ [c])) :=
  if_neg h

theorem lex_whole (hdigits : ∀ c ∈ cs, c.isDigit) :
    lex (.whole n) (cs ++ rest) = lex (.whole (Nat.ofDigitChars 10 cs n)) rest := by
  induction cs generalizing n with
  | nil => rfl
  | cons c cs ih =>
    obtain ⟨hc, hcs⟩ := List.forall_mem_cons.mp hdigits
    rw [List.cons_append, lex_cons (isDigit_ne_nul hc) (step_whole hc), ih hcs, Nat.ofDigitChars_cons]
    rfl

theorem lex_fraction (hdigits : ∀ c ∈ cs, c.isDigit) :
    lex (.fraction n places) (cs ++ rest) =
      lex (.fraction (Nat.ofDigitChars 10 cs n) (places + cs.length)) rest := by
  induction cs generalizing n places with
  | nil => rfl
  | cons c cs ih =>
    obtain ⟨hc, hcs⟩ := List.forall_mem_cons.mp hdigits
    rw [List.cons_append, lex_cons (isDigit_ne_nul hc) (step_fraction hc), ih hcs, Nat.ofDigitChars_cons,
      List.length_cons, Nat.add_assoc, Nat.add_comm 1]
    rfl

theorem lex_exponent {negative : Bool} {e : ℕ} (hdigits : ∀ c ∈ cs, c.isDigit) :
    lex (.exponent n places negative e) (cs ++ rest) =
      lex (.exponent n places negative (Nat.ofDigitChars 10 cs e)) rest := by
  induction cs generalizing e with
  | nil => rfl
  | cons c cs ih =>
    obtain ⟨hc, hcs⟩ := List.forall_mem_cons.mp hdigits
    rw [List.cons_append, lex_cons (isDigit_ne_nul hc) (step_exponent hc), ih hcs, Nat.ofDigitChars_cons]
    rfl

theorem isDigit_toDigits (n : ℕ) : ∀ c ∈ Nat.toDigits 10 n, c.isDigit := by
  intro c hc
  exact Nat.isDigit_of_mem_toDigits (by decide) (by decide) hc

/-- The digits of a number begin with a digit, and their value is the number. -/
theorem toDigits_cons (n : ℕ) : ∃ c cs, Nat.toDigits 10 n = c :: cs ∧ c.isDigit ∧
    (∀ c ∈ cs, c.isDigit) ∧ Nat.ofDigitChars 10 cs (digit c) = n := by
  have hpos : 0 < (Nat.toDigits 10 n).length := Nat.length_toDigits_pos
  cases hdigits : Nat.toDigits 10 n with
  | nil =>
    rw [hdigits] at hpos
    exact absurd hpos (by decide)
  | cons c cs =>
    have hall := isDigit_toDigits n
    have hvalue : Nat.ofDigitChars 10 (Nat.toDigits 10 n) 0 = n := Nat.ofDigitChars_ten_toDigits
    rw [hdigits] at hall hvalue
    obtain ⟨hc, hcs⟩ := List.forall_mem_cons.mp hall
    rw [Nat.ofDigitChars_cons, Nat.mul_zero, Nat.zero_add] at hvalue
    exact ⟨c, cs, rfl, hc, hcs, hvalue⟩

theorem lex_blank_toDigits (n : ℕ) (rest : List Char) :
    lex .blank (Nat.toDigits 10 n ++ rest) = lex (.whole n) rest := by
  obtain ⟨c, cs, hdigits, hc, hcs, hvalue⟩ := toDigits_cons n
  rw [hdigits, List.cons_append, lex_cons (isDigit_ne_nul hc) (step_blank_digit hc), lex_whole hcs,
    hvalue]

theorem lex_mark_toDigits (e : ℕ) (rest : List Char) :
    lex (.exponentMark n places) (Nat.toDigits 10 e ++ rest) = lex (.exponent n places false e) rest := by
  obtain ⟨c, cs, hdigits, hc, hcs, hvalue⟩ := toDigits_cons e
  rw [hdigits, List.cons_append, lex_cons (isDigit_ne_nul hc) (step_mark hc), lex_exponent hcs, hvalue]

theorem lex_sign_toDigits (negative : Bool) (e : ℕ) (rest : List Char) :
    lex (.exponentSign n places negative) (Nat.toDigits 10 e ++ rest) =
      lex (.exponent n places negative e) rest := by
  obtain ⟨c, cs, hdigits, hc, hcs, hvalue⟩ := toDigits_cons e
  rw [hdigits, List.cons_append, lex_cons (isDigit_ne_nul hc) (step_sign hc), lex_exponent hcs, hvalue]

theorem lexes_toDigits (n : ℕ) : Lexes (Nat.toDigits 10 n) [.number n] := by
  intro rest hrest
  rw [lex_blank_toDigits]
  exact lex_complete rfl rfl hrest

theorem lexes_minus (h : Lexes text tokens) : Lexes ('-' :: text) (.minus :: tokens) := by
  intro rest hrest
  rw [List.cons_append, lex, if_neg (by decide)]
  change Option.map ([Token.minus] ++ ·) (lex .blank (text ++ rest)) = _
  rw [h rest hrest, Option.map_map]
  rfl

theorem lex_word {w : List Char} (hword : ∀ c ∈ cs, isWordChar c ∧ c ≠ '\x00') :
    lex (.word w) (cs ++ rest) = lex (.word (w ++ cs)) rest := by
  induction cs generalizing w with
  | nil => rw [List.append_nil, List.nil_append]
  | cons c cs ih =>
    obtain ⟨hc, hcs⟩ := List.forall_mem_cons.mp hword
    rw [List.cons_append, lex_cons hc.2 (step_word hc.1), ih hcs, List.append_assoc]
    rfl

theorem lexes_word (hc : c ≠ '\x00') (hstart : step .blank c = some ([], .word [c]))
    (hword : cs.all fun c => isWordChar c && c != '\x00') : Lexes (c :: cs) [.word (c :: cs)] := by
  intro rest hrest
  have hall : ∀ c ∈ cs, isWordChar c ∧ c ≠ '\x00' := by
    intro c hc
    simpa using List.all_eq_true.mp hword c hc
  rw [List.cons_append, lex_cons hc hstart, lex_word hall]
  exact lex_complete rfl rfl hrest

theorem lexes_eq : Lexes ['='] [.operator .eq] := fun _ _ => rfl

theorem lexes_le : Lexes ['<', '='] [.operator .le] := by
  intro rest _
  rw [List.cons_append, lex_cons (by decide) rfl]
  rfl

theorem lexes_ge : Lexes ['>', '='] [.operator .ge] := by
  intro rest _
  rw [List.cons_append, lex_cons (by decide) rfl]
  rfl

theorem lexes_parameter : Lexes ['?'] [.parameter] := by
  intro rest hrest
  rw [List.cons_append, lex_cons (by decide) rfl]
  exact lex_complete rfl rfl hrest

theorem lex_string {u : List Char} (hu : ∀ c ∈ cs, c ≠ '\'' ∧ c ≠ '\x00') :
    lex (.string u) (cs ++ rest) = lex (.string (u ++ cs)) rest := by
  induction cs generalizing u with
  | nil => rw [List.append_nil, List.nil_append]
  | cons c cs ih =>
    obtain ⟨hc, hcs⟩ := List.forall_mem_cons.mp hu
    rw [List.cons_append, lex_cons hc.2 (step_string hc.1), ih hcs, List.append_assoc]
    rfl

theorem lexes_string (hu : ∀ c ∈ cs, c ≠ '\'' ∧ c ≠ '\x00') :
    Lexes ('\'' :: (cs ++ ['\''])) [.string cs] := by
  intro rest hrest
  rw [List.cons_append, lex_cons (by decide) rfl, List.append_assoc, lex_string hu, List.nil_append,
    List.singleton_append, lex_cons (by decide) rfl]
  exact lex_complete rfl rfl hrest

theorem Lexes.append (h : Lexes text tokens) (h' : Lexes text' tokens') :
    Lexes (text ++ ' ' :: text') (tokens ++ tokens') := by
  intro rest hrest
  rw [List.append_assoc, List.cons_append, h _ (.inr ⟨_, rfl⟩), lex_cons (by decide) rfl,
    h' rest hrest, Option.map_map]
  congr 1
  funext x
  exact (List.append_assoc tokens tokens' x).symm

/-- A name right after a number. -/
theorem lex_whole_word (hc : c ≠ '\x00') (hdigit : c.isDigit = false) (hpoint : c ≠ '.')
    (hmark : ¬ (c = 'e' ∨ c = 'E')) (hword : isWordChar c) : lex (.whole n) (c :: cs) = none := by
  rw [lex, if_neg hc, step, hdigit, if_neg (by decide), if_neg hpoint, if_neg hmark, if_pos hword]
  rfl

/-- A string that is read has one character fewer than the text that holds it at least, and all but
the closing quote are its own if it has no fewer. -/
theorem lex_string_cases {u : List Char} (h : lex (.string u) cs = some tokens) :
    ∃ v rest, tokens = .string (u ++ v) :: rest ∧ v.length + 1 ≤ cs.length ∧
      (v.length + 1 = cs.length → ∀ c ∈ v, c ≠ '\'' ∧ c ≠ '\x00') := by
  induction hn : cs.length using Nat.strong_induction_on generalizing cs u tokens with
  | h n ih =>
    subst hn
    cases cs with
    | nil => cases h
    | cons c cs =>
      rw [lex] at h
      by_cases hnul : c = '\x00'
      · rw [if_pos hnul] at h
        cases h
      rw [if_neg hnul] at h
      by_cases hquote : c = '\''
      swap
      · rw [step_string hquote, Option.bind_some, Option.map_eq_some_iff] at h
        obtain ⟨tokens', hlex, rfl⟩ := h
        obtain ⟨v, rest, rfl, hle, hall⟩ := ih cs.length (Nat.lt_succ_self _) hlex rfl
        refine ⟨c :: v, rest, by simp, by simpa using hle, fun heq => ?_⟩
        exact List.forall_mem_cons.mpr ⟨⟨hquote, hnul⟩, hall (by simpa using heq)⟩
      -- the string ends at this quote, unless another one follows
      rw [step, if_pos hquote, Option.bind_some, Option.map_eq_some_iff] at h
      obtain ⟨tokens', hlex, rfl⟩ := h
      have hclosed : (∃ rest, tokens' = .string u :: rest) →
          ∃ v rest, [] ++ tokens' = .string (u ++ v) :: rest ∧ v.length + 1 ≤ (c :: cs).length ∧
            (v.length + 1 = (c :: cs).length → ∀ c ∈ v, c ≠ '\'' ∧ c ≠ '\x00') := by
        intro ⟨rest, hrest⟩
        refine ⟨[], rest, by rw [hrest, List.append_nil]; rfl, by simp, fun _ => ?_⟩
        exact List.forall_mem_nil _
      cases cs with
      | nil =>
        cases hlex
        exact hclosed ⟨[], rfl⟩
      | cons d cs =>
        change lex (.quote u) (d :: cs) = some tokens' at hlex
        rw [lex] at hlex
        by_cases hnul' : d = '\x00'
        · rw [if_pos hnul'] at hlex
          cases hlex
          exact hclosed ⟨[], rfl⟩
        rw [if_neg hnul', step] at hlex
        by_cases hdouble : d = '\''
        · rw [if_pos hdouble, Option.bind_some, Option.map_eq_some_iff] at hlex
          obtain ⟨tokens'', hlex, rfl⟩ := hlex
          have hlt : cs.length < (c :: d :: cs).length := by
            rw [List.length_cons, List.length_cons]
            omega
          obtain ⟨v, rest, rfl, hle, _⟩ := ih cs.length hlt hlex rfl
          refine ⟨d :: v, rest, by simp, ?_, fun heq => ?_⟩
          · simp only [List.length_cons]
            omega
          · simp only [List.length_cons] at heq
            omega
        · rw [if_neg hdouble, tokenThen] at hlex
          cases hblank : blankStep d with
          | none =>
            rw [hblank] at hlex
            cases hlex
          | some next =>
            rw [hblank, Option.map_some, Option.bind_some, Option.map_eq_some_iff] at hlex
            obtain ⟨tokens'', _, rfl⟩ := hlex
            exact hclosed ⟨_, rfl⟩

end Lexing

section Reading
variable {columns : Columns} {text text' operandText : List Char} {x : Comparison}
  {xs ys : List Comparison}

theorem conjunction_string {w u : List Char} {rest : List Token}
    (h : conjunction (.word w :: .operator .eq :: .string u :: rest) = some xs) :
    ⟨columnName w, .eq, .text u⟩ ∈ xs := by
  cases rest with
  | nil =>
    cases h
    exact List.mem_singleton_self _
  | cons t rest =>
    cases t with
    | word w' =>
      change (if isAnd w' then (conjunction rest).map (⟨columnName w, .eq, .text u⟩ :: ·) else none) = _ at h
      by_cases hand : isAnd w'
      · rw [if_pos hand, Option.map_eq_some_iff] at h
        obtain ⟨ys, _, rfl⟩ := h
        exact List.mem_cons_self
      · rw [if_neg hand] at h
        cases h
    | _ => simp [conjunction] at h

/-- A name is not compared with another. -/
theorem conjunction_name (w v : List Char) (op : Operator) (rest : List Token) :
    conjunction (.word w :: .operator op :: .word v :: rest) = none := by
  cases rest with
  | nil => rfl
  | cons t rest => cases t <;> simp [conjunction, operandOf]

/-- A text is read as a comparison, also before others. -/
def Reads (text : List Char) (x : Comparison) : Prop :=
  ∃ tokens, Lexes text tokens ∧ conjunction tokens = some [x] ∧
    ∀ w rest, isAnd w → conjunction (tokens ++ .word w :: rest) = (conjunction rest).map (x :: ·)

theorem reads_operand {w opText : List Char} {op : Operator} {t : Token} {v : Operand}
    (hw : Lexes w [.word w]) (hop : Lexes opText [.operator op]) (ht : Lexes operandText [t])
    (hv : operandOf t = some v) : Reads (w ++ ' ' :: (opText ++ ' ' :: operandText)) ⟨columnName w, op, v⟩ := by
  refine ⟨_, hw.append (hop.append ht), ?_, ?_⟩
  · cases t <;> cases hv <;> rfl
  · intro w' rest hand
    cases t <;> cases hv <;> exact if_pos hand

theorem reads_negative {w opText : List Char} {op : Operator} {q : ℚ}
    (hw : Lexes w [.word w]) (hop : Lexes opText [.operator op])
    (ht : Lexes operandText [.minus, .number q]) :
    Reads (w ++ ' ' :: (opText ++ ' ' :: operandText)) ⟨columnName w, op, .number (-q)⟩ := by
  refine ⟨_, hw.append (hop.append ht), rfl, ?_⟩
  intro w' rest hand
  exact if_pos hand

def andText : List Char := [' ', 'A', 'N', 'D', ' ']

/-- A text is read as these comparisons, also before others. -/
structure Conjoins (columns : Columns) (text : List Char) (xs : List Comparison) : Prop where
  alone : parse columns text = some xs
  before : ∀ rest, parse columns (text ++ andText ++ rest) = (parse columns rest).map (xs ++ ·)

theorem lex_and (rest : List Char) :
    lex .blank (andText ++ rest) = (lex .blank rest).map (.word ['A', 'N', 'D'] :: ·) := by
  have hand : Lexes ['A', 'N', 'D'] [.word ['A', 'N', 'D']] :=
    lexes_word (by decide) rfl rfl
  rw [andText, List.cons_append, lex_cons (by decide) rfl]
  change lex .blank (['A', 'N', 'D'] ++ ' ' :: rest) = _
  rw [hand _ (.inr ⟨_, rfl⟩), lex_cons (by decide) rfl]
  rfl

theorem Reads.conjoins (h : Reads text x) (hx : columns.accepts x) : Conjoins columns text [x] := by
  obtain ⟨tokens, hlex, halone, hbefore⟩ := h
  constructor
  · have hend := hlex [] (.inl rfl)
    rw [List.append_nil] at hend
    rw [parse, hend]
    change ((conjunction (tokens ++ [])).bind _) = _
    rw [List.append_nil, halone, Option.bind_some, if_pos (by rw [List.all_cons, hx]; rfl)]
  · intro rest
    rw [parse, parse, List.append_assoc, hlex (andText ++ rest) (.inr ⟨_, rfl⟩), lex_and,
      Option.map_map]
    cases lex .blank rest with
    | none => rfl
    | some tokens' =>
      change (conjunction (tokens ++ .word ['A', 'N', 'D'] :: tokens')).bind _ = _
      rw [hbefore _ _ (by decide), Option.bind_some]
      cases conjunction tokens' with
      | none => rfl
      | some ys =>
        rw [Option.map_some, Option.bind_some, Option.bind_some, List.all_cons, hx, Bool.true_and]
        split <;> rfl

theorem Conjoins.ne_nil (h : Conjoins columns text xs) : text ≠ [] := by
  intro hnil
  subst hnil
  exact absurd h.alone (by simp [parse, lex, finish, conjunction])

theorem Conjoins.append (h : Conjoins columns text xs) (h' : Conjoins columns text' ys) :
    Conjoins columns (text ++ andText ++ text') (xs ++ ys) := by
  constructor
  · rw [h.before, h'.alone]
    rfl
  · intro rest
    have hassoc : text ++ andText ++ text' ++ andText ++ rest =
        text ++ andText ++ (text' ++ andText ++ rest) := by simp only [List.append_assoc]
    rw [hassoc, h.before, h'.before, Option.map_map]
    congr 1
    funext zs
    exact (List.append_assoc xs ys zs).symm

theorem bindArguments_nil (xs : List Comparison) : bindArguments xs [] = some xs := by
  induction xs with
  | nil => rfl
  | cons x xs ih =>
    rw [bindArguments, ih]
    · rfl
    · intro a arguments _ hnil
      cases hnil

end Reading

end NumentaApps.SqlCondition
