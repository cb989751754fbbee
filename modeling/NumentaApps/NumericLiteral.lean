import Mathlib.Data.List.DropRight
import Mathlib.Data.Rat.Defs
import Mathlib.Algebra.Field.Rat

/-!
# Decimal literals as JavaScript and Python read them

Both languages read the same decimal literals and round them to the same double, which
stands here for its literal's exact value. They differ in the blanks that they strip, in
literals of other bases and in what they do with the text after a literal.
-/
namespace NumentaApps.NumericLiteral

/-- A double by the literal it is rounded from. -/
inductive Double where
  | nan
  | infinite (negative : Bool)
  | finite (negative : Bool) (magnitude : ℚ)
  deriving DecidableEq

structure Decimal where
  negative : Bool
  digits : ℕ
  exponent : ℤ
  deriving DecidableEq, Repr

/-- From here on a magnitude is rounded to infinity. -/
def overflow : ℚ := (2 ^ 54 - 1) * 2 ^ 970

/-- `Number.MAX_VALUE`. -/
def maxValue : ℚ := (2 ^ 53 - 1) * 2 ^ 971

/-- `Number.MIN_VALUE`, the least double above zero. -/
def minValue : ℚ := 1 / 2 ^ 1074

def Decimal.toDouble (d : Decimal) : Double :=
  let magnitude := (d.digits : ℚ) * 10 ^ d.exponent
  if overflow ≤ magnitude then .infinite d.negative else .finite d.negative magnitude

/-- Texts are compared letter by letter. -/
instance lawfulBEq : LawfulBEq (List Char) := inferInstance

/-! ## Scanning -/

def digitsValue (cs : List Char) : ℕ := cs.foldl (fun n c => 10 * n + (c.toNat - 48)) 0

def scanSign : List Char → Bool × List Char
  | '+' :: cs => (false, cs)
  | '-' :: cs => (true, cs)
  | cs => (false, cs)

def scanFraction : List Char → List Char × List Char
  | '.' :: cs => (cs.takeWhile Char.isDigit, cs.dropWhile Char.isDigit)
  | cs => ([], cs)

/-- An exponent without digits is not one. -/
def scanExponent : List Char → ℤ × List Char
  | [] => (0, [])
  | c :: cs =>
    let digits := (scanSign cs).2.takeWhile Char.isDigit
    if (c = 'e' ∨ c = 'E') ∧ digits ≠ [] then
      (if (scanSign cs).1 then -digitsValue digits else digitsValue digits,
        (scanSign cs).2.dropWhile Char.isDigit)
    else (0, c :: cs)

/-- The longest decimal literal that the text begins with, and the text after it. -/
def scanDecimal (cs : List Char) : Option (Decimal × List Char) :=
  let integer := (scanSign cs).2.takeWhile Char.isDigit
  let fraction := scanFraction ((scanSign cs).2.dropWhile Char.isDigit)
  let exponent := scanExponent fraction.2
  if integer = [] ∧ fraction.1 = [] then none
  else some (⟨(scanSign cs).1, digitsValue (integer ++ fraction.1),
    exponent.1 - fraction.1.length⟩, exponent.2)

def strip (blank : Char → Bool) (cs : List Char) : List Char := (cs.dropWhile blank).rdropWhile blank

/-! ## The two languages -/

/-- The white space and the line terminators of JavaScript. -/
def isJsSpace (c : Char) : Bool :=
  c.toNat ∈ [9, 10, 11, 12, 13, 32, 0xA0, 0x1680, 0x2028, 0x2029, 0x202F, 0x205F, 0x3000, 0xFEFF] ||
    (0x2000 ≤ c.toNat && c.toNat ≤ 0x200A)

/-- The white space of a Python byte string. -/
def isPySpace (c : Char) : Bool := c.toNat ∈ [9, 10, 11, 12, 13, 32]

/-- The base of a literal, and the digits after its prefix. -/
def scanRadix : List Char → Option (ℕ × List Char)
  | '0' :: c :: cs =>
    if c = 'x' ∨ c = 'X' then some (16, cs)
    else if c = 'o' ∨ c = 'O' then some (8, cs)
    else if c = 'b' ∨ c = 'B' then some (2, cs)
    else none
  | _ => none

def hexValue (c : Char) : Option ℕ :=
  if c.isDigit then some (c.toNat - 48)
  else if 'a' ≤ c ∧ c ≤ 'f' then some (c.toNat - 87)
  else if 'A' ≤ c ∧ c ≤ 'F' then some (c.toNat - 55)
  else none

/-- The value of digits of a base, if that is what they are. -/
def radixValue (base : ℕ) (cs : List Char) : Option ℕ :=
  if cs = [] then none
  else cs.foldl (fun n c => n.bind fun n =>
    ((hexValue c).filter fun d => d < base).map fun d => base * n + d) (some 0)

/-- A decimal literal or "Infinity", with a sign, and the text after it. -/
def scanNumeral (cs : List Char) : Option (Double × List Char) :=
  if "Infinity".toList.isPrefixOf (scanSign cs).2 then
    some (.infinite (scanSign cs).1, (scanSign cs).2.drop 8)
  else (scanDecimal cs).map fun d => (d.1.toDouble, d.2)

/-- JavaScript's `Number` of a string. -/
def jsNumber (s : String) : Double :=
  let cs := strip isJsSpace s.toList
  if cs = [] then .finite false 0
  else match scanRadix cs with
    | some (base, digits) =>
      match radixValue base digits with
      | some n => Decimal.toDouble ⟨false, n, 0⟩
      | none => .nan
    | none =>
      match scanNumeral cs with
      | some (d, []) => d
      | _ => .nan

/-- JavaScript's `parseFloat`, which reads the beginning of a string. -/
def jsParseFloat (s : String) : Double :=
  match scanNumeral (s.toList.dropWhile isJsSpace) with
  | some (d, _) => d
  | none => .nan

/-- Python's `float` of a string; none where it raises. -/
def pyFloat (s : String) : Option Double :=
  let cs := strip isPySpace s.toList
  match scanDecimal cs with
  | some (d, []) => some d.toDouble
  | _ =>
    let word := (scanSign cs).2.map Char.toLower
    if word = "inf".toList ∨ word = "infinity".toList then some (.infinite (scanSign cs).1)
    else if word = "nan".toList then some .nan
    else none

def Double.isFinite : Double → Bool
  | .finite _ _ => true
  | _ => false

def Double.value : Double → Option ℚ
  | .finite negative magnitude => some (if negative then -magnitude else magnitude)
  | _ => none

/-! ## Text after a literal -/

/-- A character that a decimal literal does not go on with. -/
def Stops (c : Char) : Prop :=
  c.isDigit = false ∧ c ≠ '.' ∧ c ≠ 'e' ∧ c ≠ 'E' ∧ c ≠ '+' ∧ c ≠ '-'

variable {cs rest : List Char}

theorem takeWhile_append_stop {p : Char → Bool} (cs : List Char)
    (hrest : ∀ c ∈ rest.head?, p c = false) :
    (cs ++ rest).takeWhile p = cs.takeWhile p ∧ (cs ++ rest).dropWhile p = cs.dropWhile p ++ rest := by
  induction cs with
  | nil =>
    cases rest with
    | nil => simp
    | cons c rest => simp [hrest c rfl]
  | cons c cs ih =>
    by_cases hc : p c
    · simp [hc, ih.1, ih.2]
    · simp [hc]

theorem scanSign_other {c : Char} (hplus : c ≠ '+') (hminus : c ≠ '-') (cs : List Char) :
    scanSign (c :: cs) = (false, c :: cs) := by
  unfold scanSign
  split
  · rename_i heq
    exact absurd (List.cons.inj heq).1 hplus
  · rename_i heq
    exact absurd (List.cons.inj heq).1 hminus
  · rfl

theorem scanFraction_other {c : Char} (hdot : c ≠ '.') (cs : List Char) :
    scanFraction (c :: cs) = ([], c :: cs) := by
  unfold scanFraction
  split
  · rename_i heq
    exact absurd (List.cons.inj heq).1 hdot
  · rfl

theorem scanSign_append (hrest : ∀ c ∈ rest.head?, Stops c) :
    scanSign (cs ++ rest) = ((scanSign cs).1, (scanSign cs).2 ++ rest) := by
  cases cs with
  | nil =>
    cases rest with
    | nil => rfl
    | cons c rest =>
      obtain ⟨-, -, -, -, hplus, hminus⟩ := hrest c rfl
      rw [List.nil_append, scanSign_other hplus hminus]
      rfl
  | cons c cs =>
    by_cases hplus : c = '+'
    · subst hplus
      rfl
    · by_cases hminus : c = '-'
      · subst hminus
        rfl
      · rw [List.cons_append, scanSign_other hplus hminus, scanSign_other hplus hminus]
        rfl

theorem scanFraction_append (hrest : ∀ c ∈ rest.head?, Stops c) :
    scanFraction (cs ++ rest) = ((scanFraction cs).1, (scanFraction cs).2 ++ rest) := by
  cases cs with
  | nil =>
    cases rest with
    | nil => rfl
    | cons c rest =>
      obtain ⟨-, hdot, -⟩ := hrest c rfl
      rw [List.nil_append, scanFraction_other hdot]
      rfl
  | cons c cs =>
    by_cases hdot : c = '.'
    · subst hdot
      have h := takeWhile_append_stop (p := Char.isDigit) cs fun c hc => (hrest c hc).1
      simp only [List.cons_append, scanFraction, h.1, h.2]
    · rw [List.cons_append, scanFraction_other hdot, scanFraction_other hdot]
      rfl

theorem scanExponent_append (hrest : ∀ c ∈ rest.head?, Stops c) :
    scanExponent (cs ++ rest) = ((scanExponent cs).1, (scanExponent cs).2 ++ rest) := by
  cases cs with
  | nil =>
    cases rest with
    | nil => rfl
    | cons c rest =>
      obtain ⟨-, -, he, hE, -⟩ := hrest c rfl
      simp [scanExponent, he, hE]
  | cons c cs =>
    have h := takeWhile_append_stop (p := Char.isDigit) (scanSign cs).2
      fun c hc => (hrest c hc).1
    simp only [List.cons_append, scanExponent, scanSign_append hrest, h.1, h.2]
    split <;> rfl

/-- A literal is read the same whatever comes after it, if that does not go on with it. -/
theorem scanDecimal_append (cs : List Char) (hrest : ∀ c ∈ rest.head?, Stops c) :
    scanDecimal (cs ++ rest) = (scanDecimal cs).map fun d => (d.1, d.2 ++ rest) := by
  have h := takeWhile_append_stop (p := Char.isDigit) (scanSign cs).2
    fun c hc => (hrest c hc).1
  simp only [scanDecimal, scanSign_append hrest, h.1, h.2, scanFraction_append hrest,
    scanExponent_append hrest]
  split
  · rfl
  · rfl

/-- No decimal literal begins as "Infinity" does. -/
theorem scanDecimal_infinity (h : "Infinity".toList.isPrefixOf (scanSign cs).2) :
    scanDecimal cs = none := by
  obtain ⟨tail, htail⟩ := List.isPrefixOf_iff_prefix.mp h
  have hI : (scanSign cs).2 = 'I' :: ("nfinity".toList ++ tail) := htail.symm
  simp only [scanDecimal, hI]
  rfl

theorem scanNumeral_decimal {d : Decimal} (h : scanDecimal cs = some (d, rest)) :
    scanNumeral cs = some (d.toDouble, rest) := by
  rw [scanNumeral, if_neg, h]
  · rfl
  · intro hinf
    rw [scanDecimal_infinity hinf] at h
    cases h

/-! ## Blanks -/

theorem digit_range {c : Char} (h : c.isDigit) : 48 ≤ c.toNat ∧ c.toNat ≤ 57 := by
  simp only [Char.isDigit, ge_iff_le, Bool.and_eq_true, decide_eq_true_eq,
    UInt32.le_iff_toNat_le] at h
  exact h

/-- Digits after a number are below the next power of ten, and leave it none if it is none. -/
theorem digitsValue_append {n : ℕ} (h : ∀ c ∈ cs, c.isDigit) :
    cs.foldl (fun n c => 10 * n + (c.toNat - 48)) n < (n + 1) * 10 ^ cs.length ∧
      (cs.foldl (fun n c => 10 * n + (c.toNat - 48)) n = 0 → n = 0 ∧ ∀ c ∈ cs, c = '0') := by
  induction cs generalizing n with
  | nil => exact ⟨by simp, fun h => ⟨h, by simp⟩⟩
  | cons c cs ih =>
    obtain ⟨hlow, hhigh⟩ := digit_range (h c List.mem_cons_self)
    obtain ⟨hlt, hzero⟩ := @ih (10 * n + (c.toNat - 48)) fun d hd => h d (List.mem_cons_of_mem _ hd)
    rw [List.foldl_cons, List.length_cons]
    constructor
    · refine hlt.trans_le ?_
      rw [pow_succ, Nat.mul_comm (10 ^ cs.length) 10, ← Nat.mul_assoc]
      exact Nat.mul_le_mul_right _ (by omega)
    · intro heq
      obtain ⟨hn, hcs⟩ := hzero heq
      have hc : c = '0' := by
        rw [← Char.ofNat_toNat c, show c.toNat = 48 by omega]
      exact ⟨by omega, List.forall_mem_cons.mpr ⟨hc, hcs⟩⟩

theorem digitsValue_lt (h : ∀ c ∈ cs, c.isDigit) : digitsValue cs < 10 ^ cs.length := by
  have hlt := (digitsValue_append (n := 0) h).1
  rw [Nat.zero_add, Nat.one_mul] at hlt
  exact hlt

theorem eq_zero_of_digitsValue (h : ∀ c ∈ cs, c.isDigit) (hzero : digitsValue cs = 0) :
    cs = List.replicate cs.length '0' :=
  List.eq_replicate_length.mpr ((digitsValue_append h).2 hzero).2

theorem stops_of_space {c : Char} (h : isJsSpace c) : Stops c := by
  have hne : ∀ d : Char, isJsSpace d = false → c ≠ d := by
    intro d hd heq
    rw [heq, hd] at h
    cases h
  refine ⟨?_, hne _ (by decide), hne _ (by decide), hne _ (by decide), hne _ (by decide),
    hne _ (by decide)⟩
  by_contra hdigit
  rw [Bool.not_eq_false] at hdigit
  have hrange := digit_range hdigit
  simp only [isJsSpace, Bool.or_eq_true, Bool.and_eq_true, decide_eq_true_eq, List.mem_cons,
    List.not_mem_nil, or_false] at h
  omega

theorem isJsSpace_of_isPySpace {c : Char} (h : isPySpace c) : isJsSpace c := by
  simp only [isPySpace, isJsSpace, decide_eq_true_eq, Bool.or_eq_true, Bool.and_eq_true,
    List.mem_cons, List.not_mem_nil, or_false] at h ⊢
  omega

theorem isJsSpace_toLower {c : Char} (h : isJsSpace c) : c.toLower = c := by
  unfold Char.toLower
  rw [dif_neg]
  intro hupper
  simp only [ge_iff_le, UInt32.le_iff_toNat_le] at hupper
  change 65 ≤ c.toNat ∧ c.toNat ≤ 90 at hupper
  simp only [isJsSpace, Bool.or_eq_true, Bool.and_eq_true, decide_eq_true_eq, List.mem_cons,
    List.not_mem_nil, or_false] at h
  omega

theorem dropWhile_congr {p q : Char → Bool} (h : ∀ c ∈ cs, p c = q c) :
    cs.dropWhile p = cs.dropWhile q := by
  induction cs with
  | nil => rfl
  | cons c cs ih =>
    rw [List.dropWhile_cons, List.dropWhile_cons, h c List.mem_cons_self,
      ih fun d hd => h d (List.mem_cons_of_mem _ hd)]

theorem strip_congr {p q : Char → Bool} (h : ∀ c ∈ cs, p c = q c) : strip p cs = strip q cs := by
  have hmem : ∀ c ∈ cs.dropWhile q, p c = q c := fun c hc => h c (List.dropWhile_subset _ hc)
  unfold strip List.rdropWhile
  rw [dropWhile_congr h, dropWhile_congr fun c hc => hmem c (List.mem_reverse.mp hc)]

/-- After the blanks before it a text is what stripping leaves, with blanks after it. -/
theorem dropWhile_eq_strip (blank : Char → Bool) (cs : List Char) :
    ∃ blanks, cs.dropWhile blank = strip blank cs ++ blanks ∧ ∀ c ∈ blanks, blank c := by
  refine ⟨(cs.dropWhile blank).rtakeWhile blank, ?_, fun c hc => List.mem_rtakeWhile_imp hc⟩
  unfold strip List.rdropWhile List.rtakeWhile
  rw [← List.reverse_append, List.takeWhile_append_dropWhile, List.reverse_reverse]

/-! ## The same number -/

/-- A number without a prefix of another base is a decimal literal. -/
theorem scanDecimal_of_number {s : String} {negative : Bool} {magnitude : ℚ}
    (h : jsNumber s = .finite negative magnitude) (hblank : strip isJsSpace s.toList ≠ [])
    (hradix : scanRadix (strip isJsSpace s.toList) = none) :
    ∃ d, scanDecimal (strip isJsSpace s.toList) = some (d, []) ∧
      d.toDouble = .finite negative magnitude := by
  simp only [jsNumber, if_neg hblank, hradix] at h
  unfold scanNumeral at h
  split at h
  · rename_i d hd
    split at hd
    · obtain ⟨rfl, -⟩ := Prod.mk.inj (Option.some.inj hd)
      cases h
    · obtain ⟨⟨dec, rest⟩, hdec, heq⟩ := Option.map_eq_some_iff.mp hd
      simp only [Prod.mk.injEq] at heq
      obtain ⟨rfl, rfl⟩ := heq
      exact ⟨dec, hdec, h⟩
  · cases h

theorem jsParseFloat_of_decimal {s : String} {d : Decimal}
    (h : scanDecimal (strip isJsSpace s.toList) = some (d, [])) : jsParseFloat s = d.toDouble := by
  obtain ⟨blanks, hsplit, hblanks⟩ := dropWhile_eq_strip isJsSpace s.toList
  have hstops : ∀ c ∈ blanks.head?, Stops c := fun c hc =>
    stops_of_space (hblanks c (List.mem_of_mem_head? hc))
  have hscan := scanDecimal_append (strip isJsSpace s.toList) hstops
  rw [h, Option.map_some, List.nil_append] at hscan
  rw [jsParseFloat, hsplit, scanNumeral_decimal hscan]

/-- Where all blanks are Python's and the literal has no prefix of another base, a number
is read the same in three ways. -/
theorem number_agrees {s : String} {negative : Bool} {magnitude : ℚ}
    (h : jsNumber s = .finite negative magnitude) (hblank : strip isJsSpace s.toList ≠ [])
    (hspace : ∀ c ∈ s.toList, isJsSpace c → isPySpace c)
    (hradix : scanRadix (strip isJsSpace s.toList) = none) :
    pyFloat s = some (.finite negative magnitude) ∧
      jsParseFloat s = .finite negative magnitude := by
  obtain ⟨d, hd, hvalue⟩ := scanDecimal_of_number h hblank hradix
  have hstrip : strip isPySpace s.toList = strip isJsSpace s.toList := by
    refine strip_congr fun c hc => ?_
    exact Bool.eq_iff_iff.mpr ⟨isJsSpace_of_isPySpace, hspace c hc⟩
  constructor
  · simp only [pyFloat, hstrip, hd, hvalue]
  · rw [jsParseFloat_of_decimal hd, hvalue]

/-- Of a literal with the prefix of another base `parseFloat` reads the zero. -/
theorem scanNumeral_radix {cs cs' rest : List Char} {base : ℕ}
    (h : scanRadix cs = some (base, cs')) :
    ∃ rest', scanNumeral (cs ++ rest) = some (.finite false 0, rest') := by
  unfold scanRadix at h
  split at h
  · rename_i c cs
    have hletter : c = 'x' ∨ c = 'X' ∨ c = 'o' ∨ c = 'O' ∨ c = 'b' ∨ c = 'B' := by
      split at h
      · tauto
      split at h
      · tauto
      split at h
      · tauto
      · cases h
    refine ⟨c :: (cs ++ rest), ?_⟩
    have hdigit : c.isDigit = false ∧ c ≠ '.' ∧ c ≠ 'e' ∧ c ≠ 'E' := by
      rcases hletter with rfl | rfl | rfl | rfl | rfl | rfl <;> decide
    have hoverflow : ¬ overflow ≤ 0 := by decide +kernel
    have hfraction : scanFraction (c :: (cs ++ rest)) = ([], c :: (cs ++ rest)) := by
      unfold scanFraction
      split
      · rename_i heq
        exact absurd (List.cons.inj heq).1 hdigit.2.1
      · rfl
    simp [scanNumeral, scanSign, scanDecimal, hdigit, hfraction, scanExponent, Decimal.toDouble,
      digitsValue, hoverflow]
  · cases h

/-- What is a number to `Number` is one to `parseFloat`. -/
theorem jsParseFloat_isFinite {s : String} (h : (jsNumber s).isFinite)
    (hblank : strip isJsSpace s.toList ≠ []) : (jsParseFloat s).isFinite := by
  cases hvalue : jsNumber s with
  | nan => rw [hvalue] at h; cases h
  | infinite negative => rw [hvalue] at h; cases h
  | finite negative magnitude =>
    cases hradix : scanRadix (strip isJsSpace s.toList) with
    | none =>
      obtain ⟨d, hd, hdouble⟩ := scanDecimal_of_number hvalue hblank hradix
      rw [jsParseFloat_of_decimal hd, hdouble]
      rfl
    | some radix =>
      obtain ⟨blanks, hsplit, -⟩ := dropWhile_eq_strip isJsSpace s.toList
      obtain ⟨rest, hscan⟩ := @scanNumeral_radix _ _ blanks _ hradix
      rw [jsParseFloat, hsplit, hscan]
      rfl

end NumentaApps.NumericLiteral
