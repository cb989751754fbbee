import Mathlib.Data.Char
import Mathlib.Data.List.Lex
import NumentaApps.NumericLiteral

/-!
# Keys of the database

`generateId.js`: the identifiers of files and metrics, the keys of data records, and the order
of the keys. A data record has the identifier of its metric and its index with leading zeros
in its key; a range of keys ends with the identifier and a character above all others used.
-/
namespace NumentaApps.Unicorn

abbrev Key := List Char

/-! ## Identifiers -/

/-- Node's SHA-1 digests, in hexadecimal digits, and `path.basename`. -/
structure Node where
  sha1 : String → List Char
  length_sha1 : ∀ seed, (sha1 seed).length = 40
  basename : String → String

/-- The first 64 bits of a digest. -/
structure HashId where
  text : List Char
  length_eq : text.length = 16
deriving DecidableEq

@[ext] structure MetricId where
  file : HashId
  metric : HashId
deriving DecidableEq

def MetricId.text (metricId : MetricId) : Key :=
  metricId.file.text ++ '!' :: metricId.metric.text

section Node
variable (node : Node)

def generateId (seed : String) : List Char := node.sha1 seed

def generateHashId (seed : String) : HashId where
  text := (generateId node seed).take 16
  length_eq := by rw [List.length_take, generateId, node.length_sha1]; rfl

/-- Only the basename of a file identifies it. -/
def generateFileId (filename : String) : HashId := generateHashId node (node.basename filename)

def generateMetricId (filename metric : String) : MetricId :=
  ⟨generateFileId node filename, generateHashId node metric⟩

end Node

/-- The last characters of a text, as JavaScript's `substr` with a negative start. -/
def lastChars (n : ℕ) (text : List Char) : List Char := text.drop (text.length - n)

def indexString (index : ℕ) : List Char :=
  lastChars 13 (List.replicate 12 '0' ++ Nat.toDigits 10 index)

def generateMetricDataId (metricId : Key) (index : ℕ) : Key :=
  metricId ++ '!' :: indexString index

/-- The sentinel of a range of keys. -/
def endOf (id : Key) : Key := id ++ ['\u00ff']

@[ext] theorem HashId.ext {a b : HashId} (h : a.text = b.text) : a = b := by
  cases a
  cases b
  cases h
  rfl

theorem MetricId.length_text (metricId : MetricId) : metricId.text.length = 33 := by
  rw [MetricId.text, List.length_append, List.length_cons, metricId.file.length_eq,
    metricId.metric.length_eq]

theorem MetricId.text_inj {a b : MetricId} (h : a.text = b.text) : a = b := by
  have hlength : a.file.text.length = b.file.text.length := by
    rw [a.file.length_eq, b.file.length_eq]
  obtain ⟨hfile, hmetric⟩ := List.append_inj h hlength
  exact MetricId.ext (HashId.ext hfile) (HashId.ext (List.cons.inj hmetric).2)

/-! ## The texts of indices -/

theorem length_indexString {index : ℕ} (h : index < 10 ^ 13) : (indexString index).length = 13 := by
  have hlong : (Nat.toDigits 10 index).length ≤ 13 :=
    (Nat.length_toDigits_le_iff (by decide) (by decide)).mpr h
  have hshort : 0 < (Nat.toDigits 10 index).length := Nat.length_toDigits_pos
  rw [indexString, lastChars, List.length_drop, List.length_append, List.length_replicate]
  omega

theorem isDigit_of_mem_indexString {index : ℕ} {c : Char} (h : c ∈ indexString index) :
    c.isDigit := by
  rcases List.mem_append.mp (List.mem_of_mem_drop h) with hzero | hdigit
  · rw [List.eq_of_mem_replicate hzero]
    rfl
  · exact Nat.isDigit_of_mem_toDigits (by decide) (by decide) hdigit

/-- What is cut off are zeros. -/
theorem ofDigitChars_indexString {index : ℕ} (h : index < 10 ^ 13) :
    Nat.ofDigitChars 10 (indexString index) 0 = index := by
  have hlong : (Nat.toDigits 10 index).length ≤ 13 :=
    (Nat.length_toDigits_le_iff (by decide) (by decide)).mpr h
  have hcut : indexString index =
      List.replicate (13 - (Nat.toDigits 10 index).length) '0' ++ Nat.toDigits 10 index := by
    have hshort : 0 < (Nat.toDigits 10 index).length := Nat.length_toDigits_pos
    rw [indexString, lastChars, List.length_append, List.length_replicate, List.drop_append,
      List.length_replicate, List.drop_replicate]
    congr 1
    · congr 1
      omega
    · rw [Nat.sub_eq_zero_of_le (by omega), List.drop_zero]
  rw [hcut, Nat.ofDigitChars_append, Nat.ofDigitChars_replicate_zero, Nat.mul_zero,
    Nat.ofDigitChars_ten_toDigits]

theorem ofDigitChars_cons (c : Char) (cs : List Char) :
    Nat.ofDigitChars 10 (c :: cs) 0 =
      10 ^ cs.length * (c.toNat - 48) + Nat.ofDigitChars 10 cs 0 := by
  rw [Nat.ofDigitChars_cons, Nat.mul_zero, Nat.zero_add, Nat.ofDigitChars_eq_ofDigitChars_zero]
  rfl

theorem ofDigitChars_lt {cs : List Char} (h : ∀ c ∈ cs, c.isDigit) :
    Nat.ofDigitChars 10 cs 0 < 10 ^ cs.length := by
  induction cs with
  | nil => exact Nat.one_pos
  | cons c cs ih =>
    have hlt := ih fun d hd => h d (List.mem_cons_of_mem c hd)
    have hdigit := (NumericLiteral.digit_range (h c List.mem_cons_self)).2
    have hhead : 10 ^ cs.length * (c.toNat - 48) ≤ 10 ^ cs.length * 9 :=
      Nat.mul_le_mul_left _ (by omega)
    rw [ofDigitChars_cons, List.length_cons, Nat.pow_succ]
    omega

/-- A number is ordered by its head before its rest. -/
theorem mul_add_lt_iff {p x y u w : ℕ} (hu : u < p) (hw : w < p) :
    p * x + u < p * y + w ↔ x < y ∨ x = y ∧ u < w := by
  rcases lt_trichotomy x y with hlt | rfl | hgt
  · have hstep : p * (x + 1) ≤ p * y := Nat.mul_le_mul_left p hlt
    rw [Nat.mul_add, Nat.mul_one] at hstep
    exact iff_of_true (by omega) (.inl hlt)
  · omega
  · have hstep : p * (y + 1) ≤ p * x := Nat.mul_le_mul_left p hgt
    rw [Nat.mul_add, Nat.mul_one] at hstep
    exact iff_of_false (by omega) (by omega)

/-- Digits of one length are ordered as their numbers. -/
theorem lt_iff_of_digits {cs ds : List Char} (hlength : cs.length = ds.length)
    (hcs : ∀ c ∈ cs, c.isDigit) (hds : ∀ d ∈ ds, d.isDigit) :
    cs < ds ↔ Nat.ofDigitChars 10 cs 0 < Nat.ofDigitChars 10 ds 0 := by
  induction cs generalizing ds with
  | nil =>
    cases ds with
    | nil => exact iff_of_false (lt_irrefl _) (lt_irrefl _)
    | cons d ds => cases hlength
  | cons c cs ih =>
    cases ds with
    | nil => cases hlength
    | cons d ds =>
      have hlength : cs.length = ds.length := Nat.succ.inj hlength
      have hcs' : ∀ c ∈ cs, c.isDigit := fun e he => hcs e (List.mem_cons_of_mem c he)
      have hds' : ∀ d ∈ ds, d.isDigit := fun e he => hds e (List.mem_cons_of_mem d he)
      obtain ⟨hc, -⟩ := NumericLiteral.digit_range (hcs c List.mem_cons_self)
      obtain ⟨hd, -⟩ := NumericLiteral.digit_range (hds d List.mem_cons_self)
      have hlt : c < d ↔ c.toNat - 48 < d.toNat - 48 := by
        rw [show c < d ↔ c.toNat < d.toNat from Iff.rfl]
        omega
      have heq : c = d ↔ c.toNat - 48 = d.toNat - 48 := by
        rw [← Char.toNat_inj]
        omega
      rw [List.cons_lt_cons_iff, ih hlength hcs' hds', hlt, heq, ofDigitChars_cons,
        ofDigitChars_cons, hlength,
        mul_add_lt_iff (hlength ▸ ofDigitChars_lt hcs') (ofDigitChars_lt hds')]

theorem indexString_lt_iff {i j : ℕ} (hi : i < 10 ^ 13) (hj : j < 10 ^ 13) :
    indexString i < indexString j ↔ i < j := by
  rw [lt_iff_of_digits ((length_indexString hi).trans (length_indexString hj).symm)
    (fun _ => isDigit_of_mem_indexString) (fun _ => isDigit_of_mem_indexString),
    ofDigitChars_indexString hi, ofDigitChars_indexString hj]

/-! ## Ranges -/

section Ranges
variable {a b r s : Key}

theorem append_lt_append (hlength : a.length = b.length) (h : a < b) : a ++ r < b ++ s := by
  induction a generalizing b with
  | nil =>
    cases b with
    | nil => exact absurd h (lt_irrefl _)
    | cons d b => cases hlength
  | cons c a ih =>
    cases b with
    | nil => cases hlength
    | cons d b =>
      rw [List.cons_append, List.cons_append, List.cons_lt_cons_iff]
      rcases List.cons_lt_cons_iff.mp h with hlt | ⟨heq, hlt⟩
      · exact .inl hlt
      · exact .inr ⟨heq, ih (Nat.succ.inj hlength) hlt⟩

theorem append_lt_append_left_iff : a ++ r < a ++ s ↔ r < s := by
  induction a with
  | nil => rfl
  | cons c a ih => rw [List.cons_append, List.cons_append, List.cons_lt_cons_iff, ih]; simp

/-- The keys from an identifier on, up to its sentinel, begin with the identifier. -/
theorem within_iff (hlength : a.length = b.length) (hr : r < ['\u00ff']) :
    a ++ s ≤ b ++ r ∧ b ++ r < endOf a ↔ b = a ∧ s ≤ r := by
  constructor
  · rintro ⟨hfrom, hto⟩
    have hab : b = a := by
      rcases lt_trichotomy a b with hlt | heq | hgt
      · exact absurd hto (not_lt.mpr (append_lt_append hlength hlt).le)
      · exact heq.symm
      · exact absurd hfrom (not_le.mpr (append_lt_append hlength.symm hgt))
    subst hab
    exact ⟨rfl, not_lt.mp fun hlt => absurd (append_lt_append_left_iff.mpr hlt) (not_lt.mpr hfrom)⟩
  · rintro ⟨rfl, hsr⟩
    exact ⟨not_lt.mp fun hlt => absurd (append_lt_append_left_iff.mp hlt) (not_lt.mpr hsr),
      append_lt_append_left_iff.mpr hr⟩

end Ranges

end NumentaApps.Unicorn
