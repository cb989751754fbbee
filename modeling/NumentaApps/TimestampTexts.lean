import Mathlib.Data.Bool.AllAny
import NumentaApps.MomentFormat
import NumentaApps.Strptime

/-!
# The texts of a timestamp

A timestamp that is valid in a format is cut into the texts of its tokens. The directives of the
format that the back end is given take the same texts, one each, where every text is in the range
that its directive asks for.
-/
namespace NumentaApps.Unicorn
open NumericLiteral (digitsValue isPySpace)
open OrderedChoice

namespace Moment

/-! ## The texts of a valid timestamp -/

def Digits (text : List Char) : Prop := ∀ c ∈ text, c.isDigit

/-- The offsets that a token takes. -/
inductive OffsetText : List Char → Prop where
  | utc {c : Char} (hc : c.toLower = 'z') : OffsetText [c]
  | hours {sign h h' : Char} (hsign : isSign sign) (hh : Digits [h, h']) :
      OffsetText [sign, h, h']
  | minutes {sign h h' m m' : Char} (hsign : isSign sign) (hh : Digits [h, h'])
      (hm : Digits [m, m']) : OffsetText [sign, h, h', m, m']
  | extended {sign h h' m m' : Char} (hsign : isSign sign) (hh : Digits [h, h'])
      (hm : Digits [m, m']) : OffsetText [sign, h, h', ':', m, m']

/-- The texts that a token takes in strict mode. -/
def Token.Takes : Token → List Char → Prop
  | .YYYY, text => Digits text ∧ text.length = 4
  | .M, text | .D, text | .H, text => Digits text ∧ 1 ≤ text.length ∧ text.length ≤ 2
  | .YY, text | .MM, text | .DD, text | .HH, text | .hh, text | .mm, text | .ss, text =>
    Digits text ∧ text.length = 2
  | .S digits, text => Digits text ∧ text.length = digits
  | .A, text => matchMeridiem text = some (text, [])
  | .Z, text => matchShortOffset text = some (text, [])
  | .literal c, text => text = [c]

variable {cs text rest : List Char} {least most : ℕ} {token : Token} {strict : Bool}

theorem mem_digits {c : Char} (h : c.isDigit) : c ∈ "0123456789".toList := by
  obtain ⟨hlow, hhigh⟩ := NumericLiteral.digit_range h
  have hall : ∀ n < 58, 48 ≤ n → Char.ofNat n ∈ "0123456789".toList := by decide
  have hc := hall c.toNat (by omega) hlow
  rwa [Char.ofNat_toNat] at hc

theorem matchDigits_spec (h : matchDigits least most cs = some (text, rest)) :
    cs = text ++ rest ∧ Digits text ∧ least ≤ text.length ∧ text.length ≤ most := by
  unfold matchDigits at h
  dsimp only at h
  split at h
  · rename_i hleast
    cases h
    refine ⟨?_, fun c hc => List.mem_takeWhile_imp hc, hleast, ?_⟩
    · have hprefix : (cs.take most).takeWhile Char.isDigit <+: cs :=
        (List.takeWhile_prefix _).trans (List.take_prefix _ _)
      exact (List.prefix_iff_eq_append.mp hprefix).symm
    · exact (List.takeWhile_sublist _).length_le.trans (List.length_take_le _ _)
  · cases h

/-- A text of digits is taken, if what comes after it is not a digit. -/
theorem matchDigits_append (hdigits : Digits text) (hleast : least ≤ text.length)
    (hmost : text.length ≤ most) (hrest : ∀ c ∈ rest.head?, c.isDigit = false) :
    matchDigits least most (text ++ rest) = some (text, rest) := by
  have htake : ((text ++ rest).take most).takeWhile Char.isDigit = text := by
    rw [List.take_append, List.take_of_length_le hmost]
    rw [List.takeWhile_append_of_pos hdigits]
    cases rest with
    | nil => simp
    | cons c rest =>
      cases most - text.length with
      | zero => simp
      | succ n => simp [hrest c rfl]
  unfold matchDigits
  rw [htake, if_pos hleast, List.drop_left]

theorem matchOptional_append (p : Char → Bool) (cs : List Char) :
    (matchOptional p cs).1 ++ (matchOptional p cs).2 = cs := by
  unfold matchOptional
  split
  · split <;> rfl
  · rfl

theorem matchOptional_cases (p : Char → Bool) (cs : List Char) :
    (matchOptional p cs).1 = [] ∨ ∃ c, (matchOptional p cs).1 = [c] ∧ p c := by
  unfold matchOptional
  split
  · split
    · rename_i hp
      exact .inr ⟨_, rfl, hp⟩
    · exact .inl rfl
  · exact .inl rfl

theorem matchMeridiem_spec (h : matchMeridiem cs = some (text, rest)) :
    cs = text ++ rest ∧ ∃ c tail, text = c :: tail ∧ (c.toLower = 'a' ∨ c.toLower = 'p') := by
  cases cs with
  | nil => cases h
  | cons c cs =>
    simp only [matchMeridiem] at h
    split at h
    · rename_i hc
      obtain ⟨rfl, rfl⟩ := Prod.mk.inj (Option.some.inj h)
      refine ⟨?_, c, _, rfl, by simpa using hc⟩
      simp only [List.cons_append, List.append_assoc, matchOptional_append]
    · cases h

theorem length_two (h : text.length = 2) : ∃ a b, text = [a, b] := List.length_eq_two.mp h

theorem matchShortOffset_spec (h : matchShortOffset cs = some (text, rest)) :
    cs = text ++ rest ∧ OffsetText text := by
  cases cs with
  | nil => cases h
  | cons c cs =>
    simp only [matchShortOffset] at h
    split at h
    · rename_i hc
      cases h
      exact ⟨rfl, .utc hc⟩
    · split at h
      · rename_i hsign
        have hsign : isSign c := by
          rcases hsign with rfl | rfl
          · rfl
          · rfl
        obtain ⟨⟨hours, after⟩, hhours, htaken⟩ := Option.map_eq_some_iff.mp h
        obtain ⟨rfl, hh, hleast, hmost⟩ := matchDigits_spec hhours
        obtain ⟨h₁, h₂, rfl⟩ := length_two (Nat.le_antisymm hmost hleast)
        have hcolon := matchOptional_append (· = ':') after
        split at htaken
        · rename_i minutes hminutes
          obtain ⟨hsplit, hm, hleast, hmost⟩ :=
            matchDigits_spec (show _ = some (minutes.1, minutes.2) from hminutes)
          obtain ⟨m₁, m₂, hmm⟩ := length_two (Nat.le_antisymm hmost hleast)
          obtain ⟨rfl, rfl⟩ := Prod.mk.inj htaken
          rw [hsplit] at hcolon
          refine ⟨by simp only [List.cons_append, List.append_assoc, hcolon], ?_⟩
          rw [hmm] at hm ⊢
          rcases matchOptional_cases (· = ':') after with hno | ⟨d, hyes, hd⟩
          · rw [hno]
            exact .minutes hsign hh hm
          · obtain rfl := of_decide_eq_true hd
            rw [hyes]
            exact .extended hsign hh hm
        · obtain ⟨rfl, rfl⟩ := Prod.mk.inj htaken
          exact ⟨rfl, .hours hsign hh⟩
      · cases h

/-- A literal that neither a digit nor a blank is taken for. -/
def separator (c : Char) : Bool := c ∈ ['-', '/', ':', '.', 'T']

/-- A token that a number does not go on with. -/
def Token.separates : Token → Bool
  | .literal _ | .Z => true
  | _ => false

/-- All literals separate, numbers are separated, and a meridiem or an offset is the last. -/
def separated : List Token → Bool
  | [] => true
  | token :: tokens =>
    (match token with
      | .literal c => separator c || (c = ' ' && tokens.head? ≠ some (.literal ' '))
      | .A | .Z => tokens = []
      | .S digits => (1 ≤ digits && digits ≤ 3) && tokens.head?.all Token.separates
      | _ => tokens.head?.all Token.separates) && separated tokens

/-- A fraction of a second has one to three digits. -/
theorem separated_fraction {tokens : List Token} {n : ℕ} (h : separated tokens)
    (hmem : Token.S n ∈ tokens) : 1 ≤ n ∧ n ≤ 3 := by
  induction tokens with
  | nil => cases hmem
  | cons first tokens ih =>
    obtain ⟨hfirst, hrest⟩ := Bool.and_eq_true_iff.mp h
    rcases List.mem_cons.mp hmem with rfl | hmem
    · simpa using (Bool.and_eq_true_iff.mp hfirst).1
    · exact ih hrest hmem

def Token.isLast : Token → Bool
  | .A | .Z => true
  | _ => false

theorem separated_last {tokens : List Token} (h : separated (token :: tokens))
    (hlast : token.isLast) : tokens = [] := by
  cases token with
  | A | Z => exact of_decide_eq_true (Bool.and_eq_true_iff.mp h).1
  | _ => cases hlast

/-- What a token takes is at the beginning, and of the kind that it takes. -/
theorem matchToken_spec (h : token.matchToken true cs = some (text, rest))
    (hlast : token.isLast → rest = []) : cs = text ++ rest ∧ token.Takes text := by
  have hdigits : ∀ {least most : ℕ}, matchDigits least most cs = some (text, rest) →
      cs = text ++ rest ∧ Digits text ∧ least ≤ text.length ∧ text.length ≤ most :=
    fun h => matchDigits_spec h
  cases token with
  | A =>
    obtain rfl := hlast rfl
    obtain ⟨hsplit, -⟩ := matchMeridiem_spec h
    rw [List.append_nil] at hsplit
    subst hsplit
    exact ⟨(List.append_nil _).symm, h⟩
  | Z =>
    obtain rfl := hlast rfl
    obtain ⟨hsplit, -⟩ := matchShortOffset_spec h
    rw [List.append_nil] at hsplit
    subst hsplit
    exact ⟨(List.append_nil _).symm, h⟩
  | literal c =>
    cases cs with
    | nil => cases h
    | cons d cs =>
      simp only [Token.matchToken, matchLiteral] at h
      split at h
      · rename_i heq
        cases h
        exact ⟨rfl, congrArg (fun c => [c]) heq⟩
      · cases h
  | M | D | H =>
    obtain ⟨hsplit, hd, hleast, hmost⟩ := hdigits h
    exact ⟨hsplit, hd, hleast, hmost⟩
  | YYYY | YY | MM | DD | HH | hh | mm | ss | S n =>
    obtain ⟨hsplit, hd, hleast, hmost⟩ := hdigits h
    exact ⟨hsplit, hd, Nat.le_antisymm hmost hleast⟩

theorem search_of_find {find : List Char → Option (List Char × List Char)}
    (h : find cs = some (text, rest)) : search find cs = some ([], text, rest) := by
  cases cs with
  | nil => rw [search, h]
  | cons c cs => rw [search, h]

theorem find_of_search {find : List Char → Option (List Char × List Char)}
    (h : search find cs = some ([], text, rest)) : find cs = some (text, rest) := by
  unfold search at h
  split at h
  · rename_i found hfound
    cases h
    exact hfound
  · split at h
    · cases h
    · obtain ⟨found, -, hcons⟩ := Option.map_eq_some_iff.mp h
      cases hcons

/-- Where all tokens are found and nothing is left over, the timestamp is their texts. -/
theorem texts_of_scan {tokens : List Token} (hsep : separated tokens)
    (hleft : (scan true tokens cs).2 = [])
    (hall : (scan true tokens cs).1.all fun found => found.2.isSome) :
    ∃ texts, cs = texts.flatten ∧ List.Forall₂ Token.Takes tokens texts := by
  induction tokens generalizing cs with
  | nil => exact ⟨[], hleft, .nil⟩
  | cons token tokens ih =>
    unfold scan at hleft hall
    cases hfound : search (token.matchToken true) cs with
    | none =>
      rw [hfound] at hall
      simp at hall
    | some found =>
      obtain ⟨skipped, text, rest⟩ := found
      rw [hfound] at hleft hall
      obtain ⟨rfl, hrest⟩ := List.append_eq_nil_iff.mp hleft
      simp only [List.all_cons, Bool.and_eq_true] at hall
      obtain ⟨texts, rfl, htakes⟩ := ih (Bool.and_eq_true_iff.mp hsep).2 hrest hall.2
      have hlast : token.isLast → texts.flatten = [] := by
        intro hlast
        obtain rfl := separated_last hsep hlast
        cases htakes
        rfl
      obtain ⟨hsplit, htake⟩ := matchToken_spec (find_of_search hfound) hlast
      exact ⟨text :: texts, hsplit, .cons htake htakes⟩

/-- After a number comes no digit. -/
theorem head_of_separates {tokens : List Token} {texts : List (List Char)}
    (hhead : tokens.head?.all Token.separates) (hsep : separated tokens)
    (htakes : List.Forall₂ Token.Takes tokens texts) :
    ∀ c ∈ texts.flatten.head?, c.isDigit = false := by
  cases htakes with
  | nil => exact fun _ h => nomatch h
  | @cons token text tokens texts htake htakes =>
    have hliteral := (Bool.and_eq_true_iff.mp hsep).1
    cases token with
    | literal d =>
      obtain rfl : text = [d] := htake
      intro c hc
      obtain rfl : d = c := Option.some.inj hc
      simp only [separator, Bool.or_eq_true, Bool.and_eq_true, decide_eq_true_eq, List.mem_cons,
        List.not_mem_nil, or_false] at hliteral
      rcases hliteral with (rfl | rfl | rfl | rfl | rfl) | ⟨rfl, -⟩ <;> rfl
    | Z =>
      obtain ⟨-, hoffset⟩ := matchShortOffset_spec htake
      have hno : ∀ d ∈ "0123456789".toList, d.toLower ≠ 'z' ∧ isSign d = false :=
        List.all_iff_forall_prop.mp (by decide)
      intro c hc
      by_contra hdigit
      obtain ⟨hz, hs⟩ := hno c (mem_digits (Bool.not_eq_false _ ▸ hdigit))
      cases hoffset with
      | utc h =>
        obtain rfl := Option.some.inj hc
        exact hz h
      | hours h | minutes h | extended h =>
        obtain rfl := Option.some.inj hc
        rw [hs] at h
        cases h
    | _ => cases hhead

theorem separated_number {tokens : List Token} (h : separated (token :: tokens))
    (hnumber : token.place.isSome) : tokens.head?.all Token.separates := by
  have hfirst := (Bool.and_eq_true_iff.mp h).1
  cases token with
  | A | Z | literal => cases hnumber
  | S n => exact (Bool.and_eq_true_iff.mp hfirst).2
  | _ => exact hfirst

/-- A token takes its text again from the texts of all, in strict mode and without. -/
theorem matchToken_append {tokens : List Token} {texts : List (List Char)}
    (hsep : separated (token :: tokens)) (htake : token.Takes text)
    (htakes : List.Forall₂ Token.Takes tokens texts) :
    token.matchToken strict (text ++ texts.flatten) = some (text, texts.flatten) := by
  have hdigits : token.place.isSome → ∀ {least most : ℕ}, Digits text → least ≤ text.length →
      text.length ≤ most →
      matchDigits least most (text ++ texts.flatten) = some (text, texts.flatten) :=
    fun hnumber _ _ hd hleast hmost => matchDigits_append hd hleast hmost
      (head_of_separates (separated_number hsep hnumber) (Bool.and_eq_true_iff.mp hsep).2 htakes)
  cases token with
  | A | Z =>
    obtain rfl := separated_last hsep rfl
    cases htakes
    rw [List.flatten_nil, List.append_nil]
    exact htake
  | literal c =>
    obtain rfl : text = [c] := htake
    simp [Token.matchToken, matchLiteral]
  | M | D | H =>
    obtain ⟨hd, hleast, hmost⟩ := htake
    exact hdigits rfl hd hleast hmost
  | YYYY | YY | MM | DD | HH | hh | mm | ss =>
    obtain ⟨hd, hlength⟩ := htake
    refine hdigits rfl hd ?_ (Nat.le_of_eq hlength)
    split
    · exact Nat.le_of_eq hlength.symm
    · omega
  | S n =>
    obtain ⟨hd, hlength⟩ := htake
    have hn := separated_fraction hsep List.mem_cons_self
    unfold Token.matchToken
    split
    · exact hdigits rfl hd (Nat.le_of_eq hlength.symm) (Nat.le_of_eq hlength)
    · exact hdigits rfl hd (by omega) (by omega)

theorem scan_texts {tokens : List Token} {texts : List (List Char)} (hsep : separated tokens)
    (htakes : List.Forall₂ Token.Takes tokens texts) :
    scan strict tokens texts.flatten = (tokens.zip (texts.map some), []) := by
  induction htakes with
  | nil => rfl
  | @cons token text tokens texts htake htakes ih =>
    rw [List.flatten_cons, scan, search_of_find (matchToken_append hsep htake htakes)]
    simp only [ih (Bool.and_eq_true_iff.mp hsep).2]
    rfl

/-! ## The numbers of a timestamp -/

/-- The parts of a date from the texts of the tokens. -/
def read (config : Config) (readings : List (Token × List Char)) : Config :=
  readings.foldl (fun config reading => config.add reading.1 reading.2) config

theorem read_append (config : Config) (readings readings' : List (Token × List Char)) :
    read config (readings ++ readings') = read (read config readings) readings' :=
  List.foldl_append

theorem ofScanned_texts (tokens : List Token) (texts : List (List Char)) :
    Config.ofScanned (tokens.zip (texts.map some)) = read .empty (tokens.zip texts) := by
  rw [Config.ofScanned, read, List.zip_map_right, List.foldl_map]
  rfl

theorem add_a_none {config : Config} (h : token.place = none) :
    (config.add token text).a = config.a := by
  simp only [Config.add, h]

theorem add_a_some {config : Config} {place : Place} (h : token.place = some place) :
    (config.add token text).a = Function.update config.a place (some (token.number text)) := by
  simp only [Config.add, h]

/-- The places of the texts that have been read. -/
def places (readings : List (Token × List Char)) : List Place :=
  readings.filterMap fun reading => reading.1.place

theorem places_cons (reading : Token × List Char) (readings : List (Token × List Char)) :
    places (reading :: readings) = reading.1.place.toList ++ places readings := by
  unfold places
  rw [List.filterMap_cons]
  cases reading.1.place with
  | none => rfl
  | some place => rfl

theorem read_a_of_notMem {readings : List (Token × List Char)} {place : Place} {config : Config}
    (h : place ∉ places readings) : (read config readings).a place = config.a place := by
  induction readings generalizing config with
  | nil => rfl
  | cons reading readings ih =>
    rw [places_cons, List.mem_append, not_or] at h
    refine (ih h.2).trans ?_
    cases hplace : reading.1.place with
    | none => exact congrFun (add_a_none hplace) place
    | some p =>
      rw [hplace, Option.toList_some, List.mem_singleton] at h
      refine (congrFun (add_a_some hplace) place).trans ?_
      exact Function.update_of_ne h.1 _ _

/-- Where no two tokens have the same place, the place keeps the number of its token. -/
theorem read_a_of_mem {readings : List (Token × List Char)} {reading : Token × List Char}
    {place : Place} {config : Config} (hnodup : (places readings).Nodup)
    (hmem : reading ∈ readings) (hplace : reading.1.place = some place) :
    (read config readings).a place = some (reading.1.number reading.2) := by
  induction readings generalizing config with
  | nil => cases hmem
  | cons first readings ih =>
    rw [places_cons] at hnodup
    rcases List.mem_cons.mp hmem with rfl | hmem
    · rw [hplace, Option.toList_some, List.singleton_append, List.nodup_cons] at hnodup
      refine (read_a_of_notMem hnodup.1).trans ?_
      rw [add_a_some hplace, Function.update_self]
    · exact ih (List.nodup_append.mp hnodup).2.1 hmem

end Moment

namespace Strptime
open Moment

/-! ## The texts that a directive takes -/

/-- The directive that goes with a token, in a format with seconds or with hundredths of them
only, and of twelve hours or of twenty-four. -/
def pairs (seconds twelve : Bool) : Token → Directive → Bool
  | .YYYY, .Y | .YY, .y | .MM, .m | .M, .m | .DD, .d | .D, .d | .mm, .M => true
  | .HH, .H | .H, .H => !twelve
  | .hh, .I | .A, .p => twelve
  | .ss, .S => seconds
  | .S _, .f => seconds
  | .S digits, .S => !seconds && digits = 2
  | .literal c, .space => c = ' '
  | .literal c, .literal d => c = d && separator c
  | _, _ => false

/-- The first choice of a directive is a whole text. -/
def Accepts (directive : Directive) (text : List Char) : Prop :=
  (directive.group.candidates text).head? = some (text, [])

instance (directive : Directive) (text : List Char) : Decidable (Accepts directive text) :=
  inferInstanceAs (Decidable (_ = _))

variable {text rest : List Char} {token : Token} {directive : Directive}

def digitChars : List Char := "0123456789".toList

/-- The texts of one digit or of two. -/
def shortTexts : List (List Char) :=
  digitChars.map (fun c => [c]) ++ digitChars.flatMap fun c => digitChars.map fun d => [c, d]

theorem mem_shortTexts (hd : Digits text) (hleast : 1 ≤ text.length) (hmost : text.length ≤ 2) :
    text ∈ shortTexts := by
  match text, hleast, hmost with
  | [c], _, _ =>
    exact List.mem_append_left _ (List.mem_map_of_mem (mem_digits (hd c List.mem_cons_self)))
  | [c, d], _, _ =>
    have hc := mem_digits (hd c List.mem_cons_self)
    have hd := mem_digits (hd d (List.mem_cons_of_mem _ List.mem_cons_self))
    exact List.mem_append_right _ (List.mem_flatMap.mpr ⟨c, hc, List.mem_map_of_mem hd⟩)

/-- The directives that take a number of one digit or of two. -/
def shortDirectives : List Directive := [.y, .m, .d, .H, .I, .M, .S]

/-- A whole text is preferred to a part of it. -/
theorem accepts_of_mem_short : ∀ directive ∈ shortDirectives, ∀ text ∈ shortTexts,
    (text, []) ∈ directive.group.candidates text → Accepts directive text := by
  decide +kernel

theorem accepts_short : ∀ text ∈ shortTexts,
    (1 ≤ digitsValue text ∧ digitsValue text ≤ 12 → Accepts .m text ∧ Accepts .I text) ∧
    (1 ≤ digitsValue text ∧ digitsValue text ≤ 31 → Accepts .d text) ∧
    (Accepts .H text ↔ digitsValue text ≤ 23) ∧
    (digitsValue text ≤ 59 → Accepts .M text ∧ Accepts .S text) ∧
    (text.length = 2 → Accepts .y text) := by
  decide +kernel

theorem isDigit_of_range {first last c : Char} (hfirst : '0' ≤ first) (hlast : last ≤ '9')
    (h : range first last c) : c.isDigit := by
  simp only [range, Bool.and_eq_true, decide_eq_true_eq] at h
  simp only [Char.isDigit, Bool.and_eq_true, decide_eq_true_eq]
  exact ⟨Char.le_trans hfirst h.1, Char.le_trans h.2 hlast⟩

/-- A number does not go on with what is no digit. -/
theorem digit_of_tail (h : directive.assigns.isSome) : ∃ classes,
    directive.group = .alternatives classes ∧
      ∀ ks ∈ classes, ∀ k ∈ ks.tail, ∀ c, k c → c.isDigit := by
  have h01 : ∀ c, range '0' '1' c → c.isDigit := fun _ => isDigit_of_range (by decide) (by decide)
  have h02 : ∀ c, range '0' '2' c → c.isDigit := fun _ => isDigit_of_range (by decide) (by decide)
  have h03 : ∀ c, range '0' '3' c → c.isDigit := fun _ => isDigit_of_range (by decide) (by decide)
  have h19 : ∀ c, range '1' '9' c → c.isDigit := fun _ => isDigit_of_range (by decide) (by decide)
  cases directive with
  | p | space | literal => cases h
  | f =>
    refine ⟨_, rfl, ?_⟩
    intro ks hks k hk c hc
    obtain ⟨n, -, rfl⟩ := List.mem_map.mp hks
    rw [List.tail_replicate] at hk
    rw [List.eq_of_mem_replicate hk] at hc
    exact hc
  | _ =>
    refine ⟨_, rfl, ?_⟩
    simp only [List.forall_mem_cons, List.tail_cons, List.not_mem_nil, false_imp_iff,
      implies_true, and_true]
    grind

/-- What a number's directive takes of a text of digits: the text, or less and then digits are
left. -/
theorem candidates_number (hassigns : directive.assigns.isSome) (hd : Digits text)
    (hne : text ≠ []) (hrest : ∀ c ∈ rest.head?, c.isDigit = false) :
    directive.group.candidates (text ++ rest) =
      (directive.group.candidates text).map (fun p => (p.1, p.2 ++ rest)) ∧
    ∀ p ∈ directive.group.candidates text, p = (text, []) ∨ ∃ c tail, p.2 = c :: tail ∧ c.isDigit := by
  obtain ⟨classes, hgroup, htail⟩ := digit_of_tail hassigns
  rw [hgroup]
  constructor
  · apply candidates_append hne
    intro c hc ks hks k hk
    by_contra hkc
    have hdigit := htail ks hks k hk c (by simpa using hkc)
    rw [hrest c hc] at hdigit
    cases hdigit
  · rintro ⟨taken, left⟩ hp
    have hsplit : taken ++ left = text := candidates_split hp
    cases left with
    | nil =>
      rw [List.append_nil] at hsplit
      exact .inl (by rw [hsplit])
    | cons c tail =>
      refine .inr ⟨c, tail, rfl, hd c ?_⟩
      rw [← hsplit]
      exact List.mem_append_right _ List.mem_cons_self

theorem assigns_of_pairs {seconds twelve : Bool} (h : pairs seconds twelve token directive)
    (hnumber : token.place.isSome) : directive.assigns.isSome := by
  cases token with
  | A | Z | literal => cases hnumber
  | _ => cases directive <;> first | rfl | cases h

theorem digits_of_takes {tokens : List Token} (hsep : separated (token :: tokens))
    (hnumber : token.place.isSome) (htake : token.Takes text) : Digits text ∧ text ≠ [] := by
  cases token with
  | A | Z | literal => cases hnumber
  | M | D | H =>
    obtain ⟨hd, hleast, -⟩ := htake
    exact ⟨hd, List.ne_nil_of_length_pos hleast⟩
  | S n =>
    obtain ⟨hd, hlength⟩ := htake
    have hn := separated_fraction hsep List.mem_cons_self
    exact ⟨hd, List.ne_nil_of_length_pos (by omega)⟩
  | _ =>
    obtain ⟨hd, hlength⟩ := htake
    exact ⟨hd, List.ne_nil_of_length_pos (by omega)⟩

/-- Where all alternatives are of one length, they take the same. -/
theorem accepts_of_length {classes : List (List CharClass)} {n : ℕ}
    (hgroup : directive.group = .alternatives classes) (hlength : ∀ ks ∈ classes, ks.length = n)
    (hmem : (text, []) ∈ directive.group.candidates text) : Accepts directive text := by
  rw [Accepts]
  cases hhead : directive.group.candidates text with
  | nil =>
    rw [hhead] at hmem
    cases hmem
  | cons first others =>
    have hsame : ∀ p ∈ directive.group.candidates text, p.1 ++ p.2 = text ∧ p.1.length = n := by
      intro p hp
      rw [hgroup] at hp
      obtain ⟨ks, hks, hp⟩ := List.mem_filterMap.mp hp
      obtain ⟨hsplit, hlen⟩ := matchClasses_split hp
      exact ⟨hsplit, hlen.trans (hlength ks hks)⟩
    obtain ⟨hsplit, hlen⟩ := hsame first (hhead ▸ List.mem_cons_self)
    obtain ⟨-, hlen'⟩ := hsame _ hmem
    obtain ⟨hfirst, hleft⟩ := List.append_inj (hsplit.trans (List.append_nil text).symm)
      (hlen.trans hlen'.symm)
    rw [List.head?_cons, ← hfirst, ← hleft]

theorem short_of_pairs {seconds twelve : Bool} (hpair : pairs seconds twelve token directive)
    (hshort : directive ∈ shortDirectives) (htake : token.Takes text) : text ∈ shortTexts := by
  have htwo : Digits text ∧ text.length = 2 → text ∈ shortTexts :=
    fun h => mem_shortTexts h.1 (by omega) (by omega)
  have hone : Digits text ∧ 1 ≤ text.length ∧ text.length ≤ 2 → text ∈ shortTexts :=
    fun h => mem_shortTexts h.1 h.2.1 h.2.2
  cases token with
  | M | D | H => exact hone htake
  | YY | MM | DD | HH | hh | mm | ss => exact htwo htake
  | S n =>
    obtain ⟨hd, hlength⟩ := htake
    cases directive with
    | S =>
      simp only [pairs, Bool.and_eq_true, decide_eq_true_eq] at hpair
      exact htwo ⟨hd, hlength.trans hpair.2⟩
    | f => exact absurd hshort (by decide)
    | _ => cases hpair
  | YYYY =>
    cases directive with
    | Y => exact absurd hshort (by decide)
    | _ => cases hpair
  | A =>
    cases directive with
    | p => exact absurd hshort (by decide)
    | _ => cases hpair
  | Z => cases directive <;> cases hpair
  | literal c =>
    cases directive with
    | space | literal => simp [shortDirectives] at hshort
    | _ => cases hpair

/-- A fraction of up to three digits is taken. -/
theorem accepts_fraction (hd : Digits text) (hleast : 1 ≤ text.length) (hmost : text.length ≤ 3) :
    Accepts .f text := by
  match text, hleast, hmost with
  | [a], _, _ =>
    have ha := hd a (by simp)
    simp [Accepts, Directive.group, Group.candidates, matchClasses, List.replicate, ha]
  | [a, b], _, _ =>
    have ha := hd a (by simp)
    have hb := hd b (by simp)
    simp [Accepts, Directive.group, Group.candidates, matchClasses, List.replicate, ha, hb]
  | [a, b, c], _, _ =>
    have ha := hd a (by simp)
    have hb := hd b (by simp)
    have hc := hd c (by simp)
    simp [Accepts, Directive.group, Group.candidates, matchClasses, List.replicate, ha, hb, hc]

/-- The year of four digits is taken. -/
theorem accepts_year (hd : Digits text) (hlength : text.length = 4) : Accepts .Y text := by
  match text, hlength with
  | [a, b, c, d], _ =>
    have ha := hd a (by simp)
    have hb := hd b (by simp)
    have hc := hd c (by simp)
    have hd := hd d (by simp)
    simp [Accepts, Directive.group, Group.candidates, matchClasses, ha, hb, hc, hd]

/-- A number's directive that can take a whole text does so first. -/
theorem accepts_of_mem {seconds twelve : Bool} {tokens : List Token}
    (hpair : pairs seconds twelve token directive) (hsep : separated (token :: tokens))
    (htake : token.Takes text) (hnumber : token.place.isSome)
    (hmem : (text, []) ∈ directive.group.candidates text) : Accepts directive text := by
  have hshort : directive ∈ shortDirectives → Accepts directive text := fun h =>
    accepts_of_mem_short directive h text (short_of_pairs hpair h htake) hmem
  have hassigns := assigns_of_pairs hpair hnumber
  cases directive with
  | Y => exact accepts_of_length rfl (n := 4) (by simp) hmem
  | f =>
    cases token with
    | S n =>
      obtain ⟨hd, hlength⟩ := htake
      have hn := separated_fraction hsep List.mem_cons_self
      exact accepts_fraction hd (by omega) (by omega)
    | _ => cases hpair
  | p | space | literal => cases hassigns
  | _ => exact hshort (by decide)

theorem candidates_literal (c : Char) (rest : List Char) :
    (Directive.literal c).group.candidates (c :: rest) = [([c], rest)] := by
  simp [Directive.group, Group.candidates, matchClasses, ignoreCase]

/-- A text after a blank does not begin with another. -/
theorem head_not_blank {tokens : List Token} {texts : List (List Char)}
    (hhead : tokens.head? ≠ some (.literal ' ')) (hsep : separated tokens)
    (htakes : List.Forall₂ Token.Takes tokens texts) :
    ∀ c ∈ texts.flatten.head?, isPySpace c = false := by
  have hlower : ∀ {c : Char}, c.toLower = 'a' ∨ c.toLower = 'p' ∨ c.toLower = 'z' →
      isPySpace c = false := by
    intro c h
    by_contra hspace
    rw [Bool.not_eq_false] at hspace
    rw [NumericLiteral.isJsSpace_toLower (NumericLiteral.isJsSpace_of_isPySpace hspace)] at h
    rcases h with rfl | rfl | rfl <;> cases hspace
  have hdigit : ∀ d ∈ "0123456789".toList, isPySpace d = false :=
    List.all_iff_forall_prop.mp (by decide)
  cases htakes with
  | nil => exact fun _ h => nomatch h
  | @cons token text tokens texts htake htakes =>
    intro c hc
    cases token with
    | A =>
      obtain ⟨-, d, tail, rfl, hd⟩ := matchMeridiem_spec htake
      obtain rfl := Option.some.inj hc
      exact hlower (hd.imp_right .inl)
    | Z =>
      obtain ⟨-, hoffset⟩ := matchShortOffset_spec htake
      cases hoffset with
      | utc h =>
        obtain rfl := Option.some.inj hc
        exact hlower (.inr (.inr h))
      | hours h | minutes h | extended h =>
        obtain rfl := Option.some.inj hc
        simp only [isSign, Bool.or_eq_true, decide_eq_true_eq] at h
        rcases h with rfl | rfl <;> rfl
    | literal d =>
      obtain rfl : text = [d] := htake
      obtain rfl := Option.some.inj hc
      have hd := (Bool.and_eq_true_iff.mp hsep).1
      simp only [separator, Bool.or_eq_true, Bool.and_eq_true, decide_eq_true_eq, List.mem_cons,
        List.not_mem_nil, or_false] at hd
      rcases hd with (rfl | rfl | rfl | rfl | rfl) | ⟨rfl, -⟩
      all_goals first | rfl | exact absurd rfl hhead
    | _ =>
      obtain ⟨hd, hne⟩ := digits_of_takes hsep rfl htake
      obtain ⟨d, tail, rfl⟩ := List.exists_cons_of_ne_nil hne
      obtain rfl := Option.some.inj hc
      exact hdigit d (mem_digits (hd d List.mem_cons_self))

/-- What a directive takes is the text of its token, or it leaves a digit, or something at the
end. -/
theorem candidates_piece {seconds twelve : Bool} {tokens : List Token} {texts : List (List Char)}
    (hpair : pairs seconds twelve token directive) (hsep : separated (token :: tokens))
    (htake : token.Takes text) (htakes : List.Forall₂ Token.Takes tokens texts) :
    (Accepts directive text →
      (directive.group.candidates (text ++ texts.flatten)).head? = some (text, texts.flatten)) ∧
    ∀ p ∈ directive.group.candidates (text ++ texts.flatten),
      (p = (text, texts.flatten) ∧ Accepts directive text) ∨
        ∃ c tail, p.2 = c :: tail ∧ ((c.isDigit ∧ token.place.isSome) ∨ tokens = []) := by
  by_cases hnumber : token.place.isSome
  · obtain ⟨hd, hne⟩ := digits_of_takes hsep hnumber htake
    obtain ⟨happend, hmem⟩ := candidates_number (assigns_of_pairs hpair hnumber) hd hne
      (head_of_separates (separated_number hsep hnumber) (Bool.and_eq_true_iff.mp hsep).2 htakes)
    rw [happend]
    constructor
    · intro haccepts
      rw [List.head?_map, haccepts]
      rfl
    · intro p hp
      obtain ⟨q, hq, rfl⟩ := List.mem_map.mp hp
      rcases hmem q hq with rfl | ⟨c, tail, hleft, hdigit⟩
      · exact .inl ⟨rfl, accepts_of_mem hpair hsep htake hnumber hq⟩
      · exact .inr ⟨c, tail ++ texts.flatten, by rw [hleft]; rfl, .inl ⟨hdigit, hnumber⟩⟩
  · cases token with
    | A =>
      obtain rfl := separated_last hsep rfl
      cases htakes
      rw [List.flatten_nil, List.append_nil]
      refine ⟨id, fun p hp => ?_⟩
      cases directive with
      | p =>
        have hsplit : p.1 ++ p.2 = text := candidates_split hp
        obtain ⟨taken, left⟩ := p
        cases left with
        | nil =>
          rw [List.append_nil] at hsplit
          obtain rfl : taken = text := hsplit
          exact .inl ⟨rfl, accepts_of_length rfl (n := 2) (by simp) hp⟩
        | cons c tail => exact .inr ⟨c, tail, rfl, .inr rfl⟩
      | _ => cases hpair
    | Z => cases directive <;> cases hpair
    | literal c =>
      obtain rfl : text = [c] := htake
      cases directive with
      | literal d =>
        simp only [pairs, Bool.and_eq_true, decide_eq_true_eq] at hpair
        obtain ⟨rfl, -⟩ := hpair
        rw [List.singleton_append, candidates_literal]
        refine ⟨fun _ => rfl, fun p hp => .inl ⟨List.mem_singleton.mp hp, ?_⟩⟩
        rw [Accepts, candidates_literal]
        rfl
      | space =>
        obtain rfl := of_decide_eq_true hpair
        have hhead : tokens.head? ≠ some (.literal ' ') := by
          simpa [separator] using (Bool.and_eq_true_iff.mp hsep).1
        have hone : Directive.space.group.candidates (' ' :: texts.flatten) =
            [([' '], texts.flatten)] :=
          candidates_run rfl (head_not_blank hhead (Bool.and_eq_true_iff.mp hsep).2 htakes)
        rw [List.singleton_append, hone]
        refine ⟨fun _ => rfl, fun p hp => .inl ⟨List.mem_singleton.mp hp, ?_⟩⟩
        rfl
      | _ => cases hpair
    | _ => exact absurd rfl hnumber

variable {seconds twelve : Bool} {tokens : List Token} {ds : List Directive}
  {texts : List (List Char)}

/-- The tokens and the directives of two formats go together. -/
def Aligned (seconds twelve : Bool) (tokens : List Token) (ds : List Directive) : Prop :=
  List.Forall₂ (fun token directive => pairs seconds twelve token directive) tokens ds

instance : Decidable (Aligned seconds twelve tokens ds) :=
  inferInstanceAs (Decidable (List.Forall₂ _ _ _))

/-- The texts that are all accepted are what is matched. -/
theorem matchPrefix_texts (haligned : Aligned seconds twelve tokens ds)
    (hsep : separated tokens) (htakes : List.Forall₂ Token.Takes tokens texts)
    (haccepts : ∀ g ∈ ds.zip texts, Accepts g.1 g.2) :
    matchPrefix Directive.group ds texts.flatten = some (ds.zip texts, []) := by
  induction htakes generalizing ds with
  | nil =>
    cases haligned
    rfl
  | cons htake htakes ih =>
    cases haligned with
    | cons hpair haligned =>
      rw [List.zip_cons_cons, List.forall_mem_cons] at haccepts
      have hfirst := (candidates_piece hpair hsep htake htakes).1 haccepts.1
      exact matchPrefix_cons hfirst (ih haligned (Bool.and_eq_true_iff.mp hsep).2 haccepts.2)

/-- A separator or a blank does not take a digit. -/
theorem candidates_digit {c : Char} {cs : List Char} {l : Char} (hc : c.isDigit)
    (hpair : pairs seconds twelve (.literal l) directive) : directive.group.candidates (c :: cs) = [] := by
  have hno : ∀ d ∈ "0123456789".toList, isPySpace d = false ∧
      ∀ l ∈ ['-', '/', ':', '.', 'T'], ignoreCase l d = false := by
    have hall : ("0123456789".toList.all fun d => !isPySpace d &&
        ['-', '/', ':', '.', 'T'].all fun l => !ignoreCase l d) = true := by decide
    simpa only [List.all_eq_true, Bool.and_eq_true, Bool.not_eq_true'] using hall
  obtain ⟨hspace, hliteral⟩ := hno c (mem_digits hc)
  cases directive with
  | space =>
    rw [Directive.group, Group.candidates, List.takeWhile_cons_of_neg (by simp [hspace])]
    rfl
  | literal d =>
    simp only [pairs, separator, Bool.and_eq_true, decide_eq_true_eq] at hpair
    obtain ⟨rfl, hl⟩ := hpair
    simp [Directive.group, Group.candidates, matchClasses, hliteral l hl]
  | _ => cases hpair

/-- A way to the end takes the texts, and all are accepted. -/
theorem ways_texts (haligned : Aligned seconds twelve tokens ds)
    (hsep : separated tokens) (htakes : List.Forall₂ Token.Takes tokens texts)
    {way : List (Directive × List Char) × List Char}
    (hmem : way ∈ ways Directive.group ds texts.flatten) (hend : way.2 = []) :
    way.1 = ds.zip texts ∧ ∀ g ∈ ds.zip texts, Accepts g.1 g.2 := by
  induction htakes generalizing ds way with
  | nil =>
    cases haligned
    obtain rfl := List.mem_singleton.mp hmem
    exact ⟨rfl, fun _ h => nomatch h⟩
  | @cons token text tokens texts htake htakes ih =>
    cases haligned with
    | @cons _ directive _ ds hpair haligned =>
      obtain ⟨taken, htaken, tail, htail, rfl⟩ := mem_ways_cons.mp hmem
      rcases (candidates_piece hpair hsep htake htakes).2 taken htaken with
        ⟨rfl, haccept⟩ | ⟨c, left, hleft, hstuck⟩
      · obtain ⟨hsame, haccepts⟩ := ih haligned (Bool.and_eq_true_iff.mp hsep).2 htail hend
        rw [List.zip_cons_cons, List.forall_mem_cons]
        exact ⟨congrArg (List.cons _) hsame, haccept, haccepts⟩
      · -- Something is left that no directive takes.
        exfalso
        rw [hleft] at htail
        cases haligned with
        | nil =>
          obtain rfl := List.mem_singleton.mp htail
          cases hend
        | @cons token' directive' tokens ds hpair' haligned =>
          rcases hstuck with ⟨hdigit, hnumber⟩ | hnil
          · have hseparates := separated_number hsep hnumber
            cases token' with
            | literal l =>
              obtain ⟨taken', htaken', -⟩ := mem_ways_cons.mp htail
              rw [candidates_digit hdigit hpair'] at htaken'
              cases htaken'
            | Z => cases directive' <;> cases hpair'
            | _ => cases hseparates
          · cases hnil

end Strptime
end NumentaApps.Unicorn
