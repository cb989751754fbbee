import Mathlib.Data.Nat.Log
import Mathlib.Data.Rat.Floor
import Mathlib.Tactic.Linarith
import Mathlib.Tactic.NormNum
import Mathlib.Tactic.Positivity

/-!
# Numbers printed into a buffer

`formatFloat` writes the digits of a rounded number from the right end of a buffer on, together with
the separators. Values are exact. Writing outside of the buffer gives `none`.
-/
namespace NumentaApps.MobileCore.DataUtils

structure DecimalFormatSymbols where
  groupingSeparator : Char
  decimalSeparator : Char
  minusSign : Char

def POW10 : List ℕ :=
  [1, 10, 100, 1000, 10000, 100000, 1000000, 10000000, 100000000, 1000000000]

theorem POW10_eq : POW10 = (List.range 10).map fun i => 10 ^ i := by decide

theorem POW10_getD {digits : ℕ} (h : digits < POW10.length) : POW10.getD digits 0 = 10 ^ digits := by
  have hlt : digits < (List.range 10).length := h
  rw [POW10_eq, List.getD_eq_getElem?_getD, List.getElem?_map, List.getElem?_eq_getElem hlt,
    List.getElem_range]
  rfl

/-- `Math.round` of a `float`, whose result is an `int`. -/
def mathRound (x : ℚ) : ℤ := max (-2 ^ 31) (min (2 ^ 31 - 1) ⌊x + 1 / 2⌋)

def digitChar (digit : ℕ) : Char := Char.ofNat (digit + 48)

structure Buffer where
  out : List Char
  index : ℤ

/-- `out[index--] = c`. -/
def Buffer.put (b : Buffer) (c : Char) : Option Buffer :=
  if 0 ≤ b.index ∧ b.index < b.out.length then
    some { out := b.out.set b.index.toNat c, index := b.index - 1 }
  else none

/-- The variables of the loop. -/
structure Digits where
  buffer : Buffer
  lval : ℕ
  thousand : ℤ
  charCount : ℕ

def groupingStep (s : DecimalFormatSymbols) (st : Digits) : Option Digits :=
  if st.thousand = 0 then
    (st.buffer.put s.groupingSeparator).map fun b =>
      { st with
        buffer := b
        charCount := st.charCount + 1
        thousand := 2 }
  else some { st with thousand := st.thousand - 1 }

def digitStep (st : Digits) : Option Digits :=
  (st.buffer.put (digitChar (st.lval % 10))).map fun b =>
    { st with
      buffer := b
      lval := st.lval / 10
      charCount := st.charCount + 1 }

def decimalStep (s : DecimalFormatSymbols) (digits : ℕ) (st : Digits) : Option Digits :=
  if st.charCount = digits then
    (st.buffer.put s.decimalSeparator).map fun b =>
      { st with
        buffer := b
        charCount := st.charCount + 1 }
  else some st

def digitsLoop (s : DecimalFormatSymbols) (digits : ℕ) : ℕ → Digits → Option Digits
  | 0, _ => none
  | fuel + 1, st =>
    if st.lval ≠ 0 ∨ st.charCount < digits + 1 then
      (groupingStep s st).bind fun st =>
        (digitStep st).bind fun st =>
          (decimalStep s digits st).bind (digitsLoop s digits fuel)
    else some st

def zeroPadStep (zeroPad : Bool) (st : Digits) : Option Digits :=
  if zeroPad then
    (st.buffer.put '0').map fun b =>
      { st with
        buffer := b
        charCount := st.charCount + 1 }
  else some st

def negativeStep (s : DecimalFormatSymbols) (negative : Bool) (st : Digits) : Option Digits :=
  if negative then
    (st.buffer.put s.minusSign).map fun b =>
      { st with
        buffer := b
        charCount := st.charCount + 1 }
  else some st

/-- The count that is returned, with the buffer as it is left. -/
def formatFloat (s : DecimalFormatSymbols) (out : List Char) (val : ℚ) (digits : ℕ) :
    Option (ℕ × List Char) :=
  let zeroPad := decide (val < 1)
  if val = 0 then
    (Buffer.put { out := out, index := out.length - 1 } '0').map fun b => (1, b.out)
  else
    let negative := decide (val < 0)
    let val := if negative then -val else val
    let digits := if POW10.length ≤ digits then POW10.length - 1 else digits
    let val := val * POW10.getD digits 0
    let lval := (mathRound val).toNat
    let st : Digits := {
      buffer := { out := out, index := out.length - 1 }
      lval := lval
      thousand := digits + 3
      charCount := 0 }
    -- each turn takes a digit off, or one of the `digits` that are wanted
    (digitsLoop s digits (lval + digits + 2) st).bind fun st =>
      (zeroPadStep zeroPad st).bind fun st =>
        (negativeStep s negative st).map fun st => (st.charCount, st.buffer.out)

/-! ### What is written -/

/-- What the turn of a digit writes, from the right. -/
def emission (s : DecimalFormatSymbols) (digits r i : ℕ) : List Char :=
  (if digits + 3 ≤ i ∧ (i - digits) % 3 = 0 then [s.groupingSeparator] else []) ++
    [digitChar (r / 10 ^ i % 10)] ++ (if i + 1 = digits then [s.decimalSeparator] else [])

def emitted (s : DecimalFormatSymbols) (digits r n : ℕ) : List Char :=
  (List.range n).flatMap (emission s digits r)

theorem emitted_succ (s : DecimalFormatSymbols) (digits r n : ℕ) :
    emitted s digits r (n + 1) = emitted s digits r n ++ emission s digits r n := by
  rw [emitted, List.range_succ, List.flatMap_append, List.flatMap_singleton]
  rfl

/-- The buffer holds a text at its end. -/
structure Buffer.Holds (b : Buffer) (length : ℕ) (text : List Char) : Prop where
  length_eq : b.out.length = length
  index_eq : b.index + 1 + text.length = length
  text_eq : b.out.drop (length - text.length) = text

theorem Buffer.Holds.put {b : Buffer} {length : ℕ} {text : List Char} (h : b.Holds length text)
    (c : Char) (hroom : text.length < length) :
    ∃ b', b.put c = some b' ∧ b'.Holds length (c :: text) := by
  have hlength := h.length_eq
  have hindex := h.index_eq
  have hin : 0 ≤ b.index ∧ b.index < b.out.length := by omega
  refine ⟨_, if_pos hin, ?_⟩
  have hplace : length - (c :: text).length = b.index.toNat := by
    rw [List.length_cons]
    omega
  have hnext : b.index.toNat + 1 = length - text.length := by omega
  constructor
  · rw [List.length_set, hlength]
  · rw [List.length_cons]
    push_cast
    omega
  · have hlt : b.index.toNat < (b.out.set b.index.toNat c).length := by
      rw [List.length_set]
      omega
    rw [hplace, List.drop_eq_getElem_cons hlt, List.getElem_set_self, List.drop_set_of_lt (by omega),
      hnext, h.text_eq]

/-- So many characters have been counted as were written. -/
structure Digits.At (st : Digits) (length : ℕ) (text : List Char) : Prop where
  holds : st.buffer.Holds length text
  charCount_eq : st.charCount = text.length

section Steps
variable {s : DecimalFormatSymbols} {st : Digits} {length digits r n : ℕ} {text : List Char}

theorem Digits.At.put (h : st.At length text) (c : Char) (hroom : text.length < length) :
    ∃ b, st.buffer.put c = some b ∧ b.Holds length (c :: text) ∧
      st.charCount + 1 = (c :: text).length := by
  obtain ⟨b, hput, hb⟩ := h.holds.put c hroom
  refine ⟨b, hput, hb, ?_⟩
  rw [h.charCount_eq, List.length_cons]

theorem groupingStep_spec (h : st.At length text) (hroom : text.length < length) :
    ∃ st', groupingStep s st = some st' ∧
      st'.At length ((if st.thousand = 0 then [s.groupingSeparator] else []) ++ text) ∧
      st'.lval = st.lval ∧ st'.thousand = if st.thousand = 0 then 2 else st.thousand - 1 := by
  rw [groupingStep]
  by_cases hzero : st.thousand = 0
  · obtain ⟨b, hput, hb, hcount⟩ := h.put s.groupingSeparator hroom
    rw [if_pos hzero, if_pos hzero, if_pos hzero, hput]
    exact ⟨_, rfl, ⟨hb, hcount⟩, rfl, rfl⟩
  · rw [if_neg hzero, if_neg hzero, if_neg hzero]
    exact ⟨_, rfl, ⟨h.holds, h.charCount_eq⟩, rfl, rfl⟩

theorem digitStep_spec (h : st.At length text) (hroom : text.length < length) :
    ∃ st', digitStep st = some st' ∧ st'.At length (digitChar (st.lval % 10) :: text) ∧
      st'.lval = st.lval / 10 ∧ st'.thousand = st.thousand := by
  obtain ⟨b, hput, hb, hcount⟩ := h.put (digitChar (st.lval % 10)) hroom
  rw [digitStep, hput]
  exact ⟨_, rfl, ⟨hb, hcount⟩, rfl, rfl⟩

theorem decimalStep_spec (h : st.At length text)
    (hroom : text.length = digits → text.length < length) :
    ∃ st', decimalStep s digits st = some st' ∧
      st'.At length ((if text.length = digits then [s.decimalSeparator] else []) ++ text) ∧
      st'.lval = st.lval ∧ st'.thousand = st.thousand := by
  rw [decimalStep, h.charCount_eq]
  by_cases hdigits : text.length = digits
  · obtain ⟨b, hput, hb, hcount⟩ := h.put s.decimalSeparator (hroom hdigits)
    rw [if_pos hdigits, if_pos hdigits, hput]
    exact ⟨_, rfl, ⟨hb, by rw [← h.charCount_eq]; exact hcount⟩, rfl, rfl⟩
  · rw [if_neg hdigits, if_neg hdigits]
    exact ⟨_, rfl, h, rfl, rfl⟩

theorem zeroPadStep_spec (h : st.At length text) (zeroPad : Bool)
    (hroom : zeroPad = true → text.length < length) :
    ∃ st', zeroPadStep zeroPad st = some st' ∧
      st'.At length ((if zeroPad then ['0'] else []) ++ text) := by
  cases zeroPad with
  | false => exact ⟨st, rfl, h⟩
  | true =>
    obtain ⟨b, hput, hb, hcount⟩ := h.put '0' (hroom rfl)
    rw [zeroPadStep, if_pos rfl, hput]
    exact ⟨_, rfl, hb, hcount⟩

theorem negativeStep_spec (h : st.At length text) (negative : Bool)
    (hroom : negative = true → text.length < length) :
    ∃ st', negativeStep s negative st = some st' ∧
      st'.At length ((if negative then [s.minusSign] else []) ++ text) := by
  cases negative with
  | false => exact ⟨st, rfl, h⟩
  | true =>
    obtain ⟨b, hput, hb, hcount⟩ := h.put s.minusSign (hroom rfl)
    rw [negativeStep, if_pos rfl, hput]
    exact ⟨_, rfl, hb, hcount⟩

/-- Until the decimal separator every character is a digit. -/
theorem emitted_length_of_lt (h : n < digits) : (emitted s digits r n).length = n := by
  induction n with
  | zero => rfl
  | succ n ih =>
    rw [emitted_succ, List.length_append, ih (by omega), emission, if_neg (by omega),
      if_neg (by omega)]
    rfl

theorem le_emitted_length (n : ℕ) : n ≤ (emitted s digits r n).length := by
  induction n with
  | zero => exact Nat.zero_le _
  | succ n ih =>
    rw [emitted_succ, List.length_append, emission]
    simp only [List.length_append, List.length_singleton]
    omega

theorem lt_emitted_length (hpos : 0 < digits) (h : digits ≤ n) :
    digits < (emitted s digits r n).length := by
  induction n with
  | zero => omega
  | succ n ih =>
    rw [emitted_succ, List.length_append]
    rcases Nat.lt_or_eq_of_le h with hlt | heq
    · have hlength := ih (by omega)
      omega
    · rw [emitted_length_of_lt (by omega), emission, if_neg (by omega), if_pos heq.symm]
      simp only [List.nil_append, List.length_append, List.length_singleton]
      omega

/-- The digits left of the next grouping separator after so many digits. -/
def thousandAfter (digits n : ℕ) : ℤ :=
  if n ≤ digits then digits + 3 - n else 2 - (n - digits - 1) % 3

/-- The state of the loop after so many digits. -/
structure Digits.Wrote (st : Digits) (s : DecimalFormatSymbols) (digits r length n : ℕ) : Prop where
  text : st.At length (emitted s digits r n).reverse
  lval_eq : st.lval = r / 10 ^ n
  thousand_eq : st.thousand = thousandAfter digits n

theorem thousandAfter_eq_zero : thousandAfter digits n = 0 ↔ digits + 3 ≤ n ∧ (n - digits) % 3 = 0 := by
  rw [thousandAfter]
  split <;> omega

theorem thousandAfter_succ : thousandAfter digits (n + 1) =
    if thousandAfter digits n = 0 then 2 else thousandAfter digits n - 1 := by
  simp only [thousandAfter_eq_zero]
  simp only [thousandAfter]
  split_ifs <;> omega

theorem Digits.Wrote.step (h : st.Wrote s digits r length n)
    (hroom : (emitted s digits r (n + 1)).length ≤ length) :
    ∃ st', st'.Wrote s digits r length (n + 1) ∧
      ∀ f : Digits → Option Digits, ((groupingStep s st).bind fun st =>
        (digitStep st).bind fun st => (decimalStep s digits st).bind f) = f st' := by
  rw [emitted_succ, List.length_append, emission] at hroom
  simp only [List.length_append, List.length_singleton] at hroom
  obtain ⟨st₁, hgrouping, htext₁, hlval₁, hthousand₁⟩ := @groupingStep_spec s _ _ _ h.text (by
    rw [List.length_reverse]
    omega)
  simp only [h.thousand_eq, thousandAfter_eq_zero] at htext₁
  obtain ⟨st₂, hdigit, htext₂, hlval₂, hthousand₂⟩ := digitStep_spec htext₁ (by
    rw [List.length_append, List.length_reverse]
    omega)
  rw [hlval₁, h.lval_eq] at htext₂ hlval₂
  -- the decimal separator comes right after the last digit wanted
  have hcount : (digitChar (r / 10 ^ n % 10) ::
      ((if digits + 3 ≤ n ∧ (n - digits) % 3 = 0 then [s.groupingSeparator] else []) ++
        (emitted s digits r n).reverse)).length = digits ↔ n + 1 = digits := by
    rw [List.length_cons, List.length_append, List.length_reverse]
    rcases Nat.lt_or_ge n digits with hlt | hge
    · rw [emitted_length_of_lt hlt, if_neg (by omega)]
      simp
    · have hle := @le_emitted_length s digits r n
      omega
  obtain ⟨st₃, hdecimal, htext₃, hlval₃, hthousand₃⟩ := @decimalStep_spec s _ _ digits _ htext₂ (by
    intro hlast
    rw [if_pos (hcount.mp hlast)] at hroom
    rw [List.length_cons, List.length_append, List.length_reverse]
    simp only [List.length_singleton] at hroom
    omega)
  refine ⟨st₃, ⟨?_, ?_, ?_⟩, ?_⟩
  · simp only [hcount] at htext₃
    rw [emitted_succ, emission]
    convert htext₃ using 1
    split_ifs <;> simp
  · rw [hlval₃, hlval₂, pow_succ, Nat.div_div_eq_div_mul]
  · rw [hthousand₃, hthousand₂, hthousand₁, h.thousand_eq, thousandAfter_succ]
  · intro f
    rw [hgrouping, Option.bind_some, hdigit, Option.bind_some, hdecimal, Option.bind_some]

theorem emitted_length_mono {m : ℕ} (h : n ≤ m) :
    (emitted s digits r n).length ≤ (emitted s digits r m).length := by
  induction m with
  | zero =>
    obtain rfl : n = 0 := by omega
    exact le_refl _
  | succ m ih =>
    rcases Nat.lt_or_eq_of_le h with hlt | heq
    · rw [emitted_succ, List.length_append]
      have hle := ih (by omega)
      omega
    · rw [heq]

/-- The number of digits that are written. -/
def turns (digits r : ℕ) : ℕ := max digits (Nat.log 10 r + 1)

theorem pow_le_iff_lt_log (hn : n ≠ 0) : 10 ^ n ≤ r ↔ n < Nat.log 10 r + 1 := by
  rcases Nat.eq_zero_or_pos r with hzero | hpos
  · subst hzero
    rw [Nat.log_zero_right]
    have hpow : 0 < 10 ^ n := Nat.pow_pos (by omega)
    omega
  · rw [Nat.lt_succ_iff, Nat.le_log_iff_pow_le (by omega) (by omega)]

theorem Digits.Wrote.continues_iff (h : st.Wrote s digits r length n) :
    st.lval ≠ 0 ∨ st.charCount < digits + 1 ↔ n < turns digits r := by
  rw [h.lval_eq, h.text.charCount_eq, List.length_reverse, Nat.div_ne_zero_iff, turns, lt_max_iff]
  have hpow : 0 < 10 ^ n := Nat.pow_pos (by omega)
  rcases Nat.eq_zero_or_pos n with hzero | hpos
  · subst hzero
    have hnil : (emitted s digits r 0).length = 0 := rfl
    omega
  · rw [← pow_le_iff_lt_log (by omega)]
    have hle := @le_emitted_length s digits r n
    rcases Nat.lt_or_ge n digits with hlt | hge
    · rw [emitted_length_of_lt hlt]
      omega
    · rcases Nat.eq_zero_or_pos digits with hzero | hdigits
      · omega
      · have hlast := @lt_emitted_length s digits r n hdigits hge
        omega

theorem digitsLoop_spec {fuel : ℕ} (h : st.Wrote s digits r length n) (hn : n ≤ turns digits r)
    (hfuel : turns digits r < n + fuel)
    (hroom : (emitted s digits r (turns digits r)).length ≤ length) :
    ∃ st', digitsLoop s digits fuel st = some st' ∧ st'.Wrote s digits r length (turns digits r) := by
  induction fuel generalizing st n with
  | zero => omega
  | succ fuel ih =>
    rw [digitsLoop]
    by_cases hlt : n < turns digits r
    · rw [if_pos (h.continues_iff.mpr hlt)]
      obtain ⟨st', hst', hbind⟩ := h.step (le_trans (emitted_length_mono hlt) hroom)
      rw [hbind]
      exact ih hst' hlt (by omega)
    · rw [if_neg (mt h.continues_iff.mp hlt)]
      obtain rfl : n = turns digits r := by omega
      exact ⟨st, rfl, h⟩

/-- The magnitude of a value, rounded after its decimal point is moved. -/
def magnitude (val : ℚ) (digits : ℕ) : ℕ := (mathRound (|val| * 10 ^ digits)).toNat

/-- All that is written for a value. -/
def formatted (s : DecimalFormatSymbols) (val : ℚ) (digits : ℕ) : List Char :=
  (if val < 0 then [s.minusSign] else []) ++ (if val < 1 then ['0'] else []) ++
    (emitted s digits (magnitude val digits) (turns digits (magnitude val digits))).reverse

/-- What is written stands at the end of the buffer, and its length is returned. -/
theorem formatFloat_eq {out : List Char} {val : ℚ} (hval : val ≠ 0) (hdigits : digits < POW10.length)
    (hroom : (formatted s val digits).length ≤ out.length) :
    ∃ out', formatFloat s out val digits = some ((formatted s val digits).length, out') ∧
      out'.drop (out'.length - (formatted s val digits).length) = formatted s val digits := by
  have habs : (if decide (val < 0) then -val else val) = |val| := by
    by_cases hneg : val < 0
    · rw [if_pos (decide_eq_true hneg), abs_of_neg hneg]
    · rw [if_neg (by simpa using hneg), abs_of_nonneg (not_lt.mp hneg)]
  obtain ⟨r, hr⟩ : ∃ r, r = magnitude val digits := ⟨_, rfl⟩
  simp only [formatted, ← hr, List.length_append, List.length_reverse] at hroom ⊢
  obtain ⟨st₀, hst₀⟩ : ∃ st₀ : Digits, st₀ =
      { buffer := { out := out, index := out.length - 1 }, lval := r, thousand := digits + 3,
        charCount := 0 } := ⟨_, rfl⟩
  have hwrote₀ : st₀.Wrote s digits r out.length 0 := by
    subst hst₀
    refine ⟨⟨⟨rfl, ?_, ?_⟩, rfl⟩, ?_, ?_⟩
    · change (out.length : ℤ) - 1 + 1 + 0 = out.length
      omega
    · exact List.drop_length
    · exact (Nat.div_one r).symm
    · rw [thousandAfter, if_pos (Nat.zero_le _)]
      change (digits : ℤ) + 3 = digits + 3 - 0
      omega
  have hturns : turns digits r < 0 + (r + digits + 2) := by
    have hlog := Nat.log_le_self 10 r
    rw [turns]
    omega
  obtain ⟨st₁, hloop, hwrote₁⟩ := digitsLoop_spec hwrote₀ (Nat.zero_le _) hturns (by omega)
  obtain ⟨st₂, hzero, htext₂⟩ := zeroPadStep_spec hwrote₁.text (decide (val < 1)) (by
    intro hpad
    rw [if_pos (of_decide_eq_true hpad), List.length_singleton] at hroom
    rw [List.length_reverse]
    omega)
  obtain ⟨st₃, hnegative, htext₃⟩ := @negativeStep_spec s _ _ _ htext₂ (decide (val < 0)) (by
    intro hneg
    simp only [decide_eq_true_eq, List.length_append, List.length_reverse]
    rw [if_pos (of_decide_eq_true hneg), List.length_singleton] at hroom
    omega)
  simp only [decide_eq_true_eq, ← List.append_assoc] at htext₃
  refine ⟨st₃.buffer.out, ?_, ?_⟩
  · rw [formatFloat, if_neg hval, if_neg (by omega)]
    simp only [habs, POW10_getD hdigits]
    rw [Nat.cast_pow, Nat.cast_ofNat]
    have hmagnitude : (mathRound (|val| * 10 ^ digits)).toNat = r := hr.symm
    rw [hmagnitude, ← hst₀, hloop, Option.bind_some, hzero, Option.bind_some, hnegative, Option.map_some,
      htext₃.charCount_eq]
    simp only [List.length_append, List.length_reverse]
  · have hdrop := htext₃.holds.text_eq
    simp only [List.length_append, List.length_reverse] at hdrop
    rw [htext₃.holds.length_eq, hdrop]

end Steps

end NumentaApps.MobileCore.DataUtils
