import NumentaApps.TimestampTexts
import Mathlib.Data.List.Nodup

/-!
# The dates and times that both libraries read

Both libraries add the number of a text to the part of the date that it stands for. Over the texts
of a timestamp the parts stay alike, in all formats of the table.
-/
namespace NumentaApps.Unicorn
open NumericLiteral (digitsValue isPySpace)
open OrderedChoice

namespace Strptime
open Moment

variable {text : List Char} {token : Token} {directive : Directive}
  {seconds twelve : Bool} {tokens : List Token} {ds : List Directive} {texts : List (List Char)}

/-! ## The numbers of both ends -/

def variableOf : Place → Variable
  | .YEAR => .year
  | .MONTH => .month
  | .DATE => .day
  | .HOUR => .hour
  | .MINUTE => .minute
  | .SECOND => .second
  | .MILLISECOND => .microsecond

theorem variableOf_inj {p q : Place} (h : variableOf p = variableOf q) : p = q := by
  cases p <;> cases q <;> first | rfl | cases h

/-- What both libraries have read of the same texts. Without seconds the hundredths are taken for
them. -/
structure Alike (seconds twelve : Bool) (config : Config) (found : Found) : Prop where
  value : ∀ p, p ≠ .SECOND → p ≠ .MILLISECOND → found.value (variableOf p) = config.a p
  second : seconds = true → found.value .second = config.a .SECOND ∧
    found.value .microsecond = (config.a .MILLISECOND).map (1000 * ·)
  hundredths : seconds = false → config.a .SECOND = none ∧ found.value .microsecond = none ∧
    config.a .MILLISECOND = (found.value .second).map (10 * ·)
  bigHour : config.bigHour = found.twelve
  ofTwelve : twelve = true → found.twelve = (config.a .HOUR).isSome
  notTwelve : twelve = false → found.twelve = false ∧ config.meridiem = none
  ampm : found.ampm = (config.meridiem.getD []).map Char.toLower

theorem Alike.empty (seconds twelve : Bool) : Alike seconds twelve .empty .empty where
  value _ _ _ := rfl
  second _ := ⟨rfl, rfl⟩
  hundredths _ := ⟨rfl, rfl, rfl⟩
  bigHour := rfl
  ofTwelve _ := rfl
  notTwelve _ := ⟨rfl, rfl⟩
  ampm := rfl

theorem add_value_some {found : Found} {v : Variable} (h : directive.assigns = some v) :
    (found.add directive text).value =
      Function.update found.value v (some (directive.number text)) := by
  simp only [Found.add, h]

section Steps
variable {config : Config} {found : Found} {p : Place}

/-- A number of the same part of the date is read by both. -/
theorem Alike.add_value (h : Alike seconds twelve config found) (hplace : token.place = some p)
    (hassigns : directive.assigns = some (variableOf p))
    (hnumber : directive.number text = token.number text) :
    ∀ q, q ≠ .SECOND → q ≠ .MILLISECOND →
      (found.add directive text).value (variableOf q) = (config.add token text).a q := by
  intro q hs hms
  rw [add_value_some hassigns, add_a_some hplace, hnumber]
  by_cases heq : q = p
  · rw [heq, Function.update_self, Function.update_self]
  · rw [Function.update_of_ne heq, Function.update_of_ne fun h => heq (variableOf_inj h)]
    exact h.value q hs hms

/-- Away from the seconds, nothing changes of them. -/
theorem Alike.add_date (h : Alike seconds twelve config found) (hplace : token.place = some p)
    (hassigns : directive.assigns = some (variableOf p))
    (hnumber : directive.number text = token.number text) (hs : p ≠ .SECOND)
    (hms : p ≠ .MILLISECOND) (hbig : (config.add token text).bigHour = (found.add directive text).twelve)
    (hof : twelve = true → (found.add directive text).twelve = ((config.add token text).a .HOUR).isSome)
    (hnot : twelve = false → (found.add directive text).twelve = false) :
    Alike seconds twelve (config.add token text) (found.add directive text) := by
  have hsecond : (config.add token text).a .SECOND = config.a .SECOND ∧
      (found.add directive text).value .second = found.value .second := by
    rw [add_a_some hplace, add_value_some hassigns]
    exact ⟨Function.update_of_ne hs.symm _ _,
      Function.update_of_ne (fun heq => hs (variableOf_inj (q := .SECOND) heq.symm)) _ _⟩
  have hmilli : (config.add token text).a .MILLISECOND = config.a .MILLISECOND ∧
      (found.add directive text).value .microsecond = found.value .microsecond := by
    rw [add_a_some hplace, add_value_some hassigns]
    exact ⟨Function.update_of_ne hms.symm _ _,
      Function.update_of_ne (fun heq => hms (variableOf_inj (q := .MILLISECOND) heq.symm)) _ _⟩
  have hA : token ≠ .A := by
    rintro rfl
    cases hplace
  have hp : directive ≠ .p := by
    rintro rfl
    cases hassigns
  have hmeridiem : (config.add token text).meridiem = config.meridiem := if_neg hA
  have hampm : (found.add directive text).ampm = found.ampm := if_neg hp
  exact {
    value := h.add_value hplace hassigns hnumber
    second := fun hsec => by
      rw [hsecond.1, hsecond.2, hmilli.1, hmilli.2]
      exact h.second hsec
    hundredths := fun hsec => by
      rw [hsecond.1, hsecond.2, hmilli.1, hmilli.2]
      exact h.hundredths hsec
    bigHour := hbig
    ofTwelve := hof
    notTwelve := fun hno => ⟨hnot hno, hmeridiem.trans (h.notTwelve hno).2⟩
    ampm := by rw [hmeridiem, hampm, h.ampm] }

/-- Away from the hours, nothing changes of them. -/
theorem Alike.add_other (h : Alike seconds twelve config found) (hplace : token.place = some p)
    (hassigns : directive.assigns = some (variableOf p))
    (hnumber : directive.number text = token.number text) (hs : p ≠ .SECOND)
    (hms : p ≠ .MILLISECOND) (hhour : p ≠ .HOUR) :
    Alike seconds twelve (config.add token text) (found.add directive text) := by
  have hhh : token ≠ .hh := by
    rintro rfl
    exact hhour (Option.some.inj hplace).symm
  have hI : directive ≠ .I := by
    rintro rfl
    exact hhour (variableOf_inj (q := .HOUR) (Option.some.inj hassigns).symm)
  have hH : directive ≠ .H := by
    rintro rfl
    exact hhour (variableOf_inj (q := .HOUR) (Option.some.inj hassigns).symm)
  have htwelve : (found.add directive text).twelve = found.twelve :=
    (if_neg hI).trans (if_neg hH)
  have hbig : (config.add token text).bigHour = config.bigHour := by
    simp [Config.add, hhh]
  refine h.add_date hplace hassigns hnumber hs hms ?_ ?_ ?_
  · rw [hbig, htwelve, h.bigHour]
  · intro hof
    rw [htwelve, add_a_some hplace, Function.update_of_ne hhour.symm]
    exact h.ofTwelve hof
  · intro hnot
    rw [htwelve]
    exact (h.notTwelve hnot).1

/-- The hours of a day of twenty-four. -/
theorem Alike.add_hour (h : Alike seconds false config found) (htoken : token = .HH ∨ token = .H) :
    Alike seconds false (config.add token text) (found.add .H text) := by
  have hplace : token.place = some .HOUR := by
    rcases htoken with rfl | rfl <;> rfl
  have hnumber : Directive.H.number text = token.number text := by
    rcases htoken with rfl | rfl <;> rfl
  refine h.add_date hplace rfl hnumber (by decide) (by decide) ?_ (fun h => nomatch h)
    fun _ => rfl
  have hbig : (config.add token text).bigHour = config.bigHour := by
    rcases htoken with rfl | rfl <;> exact Bool.or_false _
  rw [hbig, h.bigHour]
  exact (h.notTwelve rfl).1

/-- The hours of half a day. -/
theorem Alike.add_hour12 (h : Alike seconds true config found) :
    Alike seconds true (config.add .hh text) (found.add .I text) := by
  refine h.add_date rfl rfl rfl (by decide) (by decide) ?_ (fun _ => ?_) (fun h => nomatch h)
  · exact Bool.or_true _
  · rw [add_a_some rfl, Function.update_self]
    rfl

/-- What is neither a number nor a meridiem changes nothing. -/
theorem Alike.add_literal (h : Alike seconds twelve config found) {c : Char}
    (hassigns : directive.assigns = none) (hp : directive ≠ .p) :
    Alike seconds twelve (config.add (.literal c) text) (found.add directive text) := by
  have hI : directive ≠ .I := by
    rintro rfl
    cases hassigns
  have hH : directive ≠ .H := by
    rintro rfl
    cases hassigns
  have hfound : found.add directive text = found := by
    simp only [Found.add, hassigns, if_neg hI, if_neg hH, if_neg hp]
  have hconfig : config.add (.literal c) text = config := by
    simp [Config.add, Token.place]
  rw [hfound, hconfig]
  exact h

/-- Seconds, and a fraction of them. -/
theorem Alike.add_second (h : Alike true twelve config found) {n : ℕ}
    (hlength : text.length = n) (hn : n ≤ 3) :
    Alike true twelve (config.add .ss text) (found.add .S text) ∧
      Alike true twelve (config.add (.S n) text) (found.add .f text) := by
  obtain ⟨hvalue, hsecond, -, hbig, hof, hnot, hampm⟩ := h
  obtain ⟨hs, hms⟩ := hsecond rfl
  have hother : ∀ p, p ≠ .SECOND → p ≠ .MILLISECOND → ∀ x y,
      Function.update found.value .second x (variableOf p) =
        Function.update config.a .SECOND y p ∧
      Function.update found.value .microsecond x (variableOf p) =
        Function.update config.a .MILLISECOND y p := by
    intro p hp hp' x y
    have hv : variableOf p ≠ .second := fun heq => hp (variableOf_inj (q := .SECOND) heq)
    have hv' : variableOf p ≠ .microsecond :=
      fun heq => hp' (variableOf_inj (q := .MILLISECOND) heq)
    rw [Function.update_of_ne hv, Function.update_of_ne hv', Function.update_of_ne hp,
      Function.update_of_ne hp']
    exact ⟨hvalue p hp hp', hvalue p hp hp'⟩
  constructor
  · exact ⟨fun p hp hp' => (hother p hp hp' _ _).1, fun _ => ⟨rfl, hms⟩, (fun h => nomatch h),
      (Bool.or_false _).trans hbig, hof, hnot, hampm⟩
  · have hscale : digitsValue text * 10 ^ (6 - text.length) =
        1000 * (digitsValue text * 10 ^ (3 - text.length)) := by
      rw [show 6 - text.length = 3 + (3 - text.length) by omega, pow_add]
      exact Nat.mul_left_comm _ _ _
    refine ⟨fun p hp hp' => (hother p hp hp' _ _).2, fun _ => ⟨hs, ?_⟩, (fun h => nomatch h),
      (Bool.or_false _).trans hbig, hof, hnot, hampm⟩
    exact congrArg some hscale

/-- Hundredths of a second that are taken for seconds. -/
theorem Alike.add_hundredths (h : Alike false twelve config found) (hlength : text.length = 2) :
    Alike false twelve (config.add (.S 2) text) (found.add .S text) := by
  obtain ⟨hvalue, -, hhundredths, hbig, hof, hnot, hampm⟩ := h
  obtain ⟨hs, hus, -⟩ := hhundredths rfl
  have hten : digitsValue text * 10 ^ (3 - text.length) = 10 * digitsValue text := by
    rw [hlength]
    exact Nat.mul_comm _ _
  refine ⟨fun p hp hp' => ?_, (fun h => nomatch h), fun _ => ⟨hs, hus, congrArg some hten⟩,
    (Bool.or_false _).trans hbig, hof, hnot, hampm⟩
  have hv : variableOf p ≠ .second := fun heq => hp (variableOf_inj (q := .SECOND) heq)
  exact (Function.update_of_ne hv _ _).trans
    ((hvalue p hp hp').trans (Function.update_of_ne hp' _ _).symm)

/-- A meridiem. -/
theorem Alike.add_meridiem (h : Alike seconds true config found) :
    Alike seconds true (config.add .A text) (found.add .p text) :=
  ⟨h.value, h.second, h.hundredths, (Bool.or_false _).trans h.bigHour, h.ofTwelve,
    (fun h => nomatch h), rfl⟩

/-- A token and its directive read the same. -/
theorem Alike.add (h : Alike seconds twelve config found)
    (hpair : pairs seconds twelve token directive) (hsep : separated (token :: tokens))
    (htake : token.Takes text) :
    Alike seconds twelve (config.add token text) (found.add directive text) := by
  cases token with
  | Z => cases directive <;> cases hpair
  | YYYY =>
    have hlength : text.length ≠ 2 := by
      rw [htake.2]
      decide
    cases directive with
    | Y => exact h.add_other rfl rfl (if_neg hlength).symm (by decide) (by decide) (by decide)
    | _ => cases hpair
  | YY =>
    have hnumber : Directive.y.number text = Token.YY.number text := by
      simp only [Directive.number, Token.number, parseTwoDigitYear]
      split <;> split <;> omega
    cases directive with
    | y => exact h.add_other rfl rfl hnumber (by decide) (by decide) (by decide)
    | _ => cases hpair
  | MM | M =>
    cases directive with
    | m => exact h.add_other rfl rfl rfl (by decide) (by decide) (by decide)
    | _ => cases hpair
  | DD | D =>
    cases directive with
    | d => exact h.add_other rfl rfl rfl (by decide) (by decide) (by decide)
    | _ => cases hpair
  | HH | H =>
    cases directive with
    | H =>
      obtain rfl : twelve = false := by simpa [pairs] using hpair
      exact h.add_hour (by simp)
    | _ => cases hpair
  | hh =>
    cases directive with
    | I =>
      obtain rfl : twelve = true := hpair
      exact h.add_hour12
    | _ => cases hpair
  | mm =>
    cases directive with
    | M => exact h.add_other rfl rfl rfl (by decide) (by decide) (by decide)
    | _ => cases hpair
  | ss =>
    cases directive with
    | S =>
      obtain rfl : seconds = true := hpair
      exact (h.add_second htake.2 (by decide)).1
    | _ => cases hpair
  | S n =>
    have hn := separated_fraction hsep List.mem_cons_self
    cases directive with
    | f =>
      obtain rfl : seconds = true := hpair
      exact (h.add_second htake.2 hn.2).2
    | S =>
      simp only [pairs, Bool.and_eq_true, decide_eq_true_eq, Bool.not_eq_true'] at hpair
      obtain ⟨rfl, rfl⟩ := hpair
      exact h.add_hundredths htake.2
    | _ => cases hpair
  | A =>
    cases directive with
    | p =>
      obtain rfl : twelve = true := hpair
      exact h.add_meridiem
    | _ => cases hpair
  | literal c =>
    cases directive with
    | space => exact h.add_literal rfl (by decide)
    | literal d =>
      apply h.add_literal rfl
      intro hspace
      cases hspace
    | _ => cases hpair

end Steps

/-- What is read of the texts that the tokens and the directives take is alike. -/
theorem alike_read {config : Config} {found : Found} (h : Alike seconds twelve config found)
    (haligned : Aligned seconds twelve tokens ds) (hsep : separated tokens)
    (htakes : List.Forall₂ Token.Takes tokens texts) :
    Alike seconds twelve (read config (tokens.zip texts))
      ((ds.zip texts).foldl (fun found g => found.add g.1 g.2) found) := by
  induction htakes generalizing ds config found with
  | nil =>
    cases haligned
    exact h
  | cons htake htakes ih =>
    cases haligned with
    | cons hpair haligned =>
      exact ih (h.add hpair hsep htake) haligned (Bool.and_eq_true_iff.mp hsep).2

end Strptime

/-! ## The formats of the table -/

open Moment Strptime

/-- The directives of the back end's format, without that of an offset. -/
def dateDirectives (py : List Char) (zone : Bool) : Option (List Directive) :=
  directives (if zone then py.dropLast.dropLast else py)

def zoneTokens (zone : Bool) : List Token := if zone then [.Z] else []

/-- An entry of the table: the tokens of a date and a time, an offset after them or none, and the
directives that go with the tokens. -/
structure Entry (format py : List Char) (dated : List Token) (ds : List Directive) (zone : Bool) :
    Prop where
  tokens_eq : tokens format = dated ++ zoneTokens zone
  mem_Z : 'Z' ∈ format ↔ zone = true
  suffix : ['%', 'z'] <:+ py ↔ zone = true
  directives_eq : dateDirectives py zone = some ds
  aligned : Aligned (Token.ss ∈ dated) (Token.hh ∈ dated) dated ds
  separated_dated : separated dated
  separated_tokens : separated (dated ++ zoneTokens zone)
  notMem_Z : Token.Z ∉ dated
  nodup : (dated.filterMap Token.place).Nodup
  year : Place.YEAR ∈ dated.filterMap Token.place
  month : Place.MONTH ∈ dated.filterMap Token.place
  day : Place.DATE ∈ dated.filterMap Token.place
  meridiem : Token.hh ∈ dated → Token.A ∈ dated

instance (format py : List Char) (dated : List Token) (ds : List Directive) (zone : Bool) :
    Decidable (Entry format py dated ds zone) :=
  decidable_of_iff (tokens format = dated ++ zoneTokens zone ∧ ('Z' ∈ format ↔ zone = true) ∧
    (['%', 'z'] <:+ py ↔ zone = true) ∧ dateDirectives py zone = some ds ∧
    Aligned (Token.ss ∈ dated) (Token.hh ∈ dated) dated ds ∧ separated dated ∧
    separated (dated ++ zoneTokens zone) ∧ Token.Z ∉ dated ∧
    (dated.filterMap Token.place).Nodup ∧ Place.YEAR ∈ dated.filterMap Token.place ∧
    Place.MONTH ∈ dated.filterMap Token.place ∧ Place.DATE ∈ dated.filterMap Token.place ∧
    (Token.hh ∈ dated → Token.A ∈ dated))
    ⟨fun ⟨h₁, h₂, h₃, h₄, h₅, h₆, h₇, h₈, h₉, h₁₀, h₁₁, h₁₂, h₁₃⟩ =>
      ⟨h₁, h₂, h₃, h₄, h₅, h₆, h₇, h₈, h₉, h₁₀, h₁₁, h₁₂, h₁₃⟩,
    fun ⟨h₁, h₂, h₃, h₄, h₅, h₆, h₇, h₈, h₉, h₁₀, h₁₁, h₁₂, h₁₃⟩ =>
      ⟨h₁, h₂, h₃, h₄, h₅, h₆, h₇, h₈, h₉, h₁₀, h₁₁, h₁₂, h₁₃⟩⟩

/-- An entry is found by taking the offset from the tokens. -/
def IsEntry (format py : List Char) : Prop :=
  (dateDirectives py ('Z' ∈ format)).any fun ds =>
    Entry format py ((tokens format).filter (· ≠ .Z)) ds ('Z' ∈ format)

instance (format py : List Char) : Decidable (IsEntry format py) :=
  inferInstanceAs (Decidable (_ = true))

/-- The characters of a literal are at hand, which a string's are not. -/
theorem forall_chars {P : List Char → List Char → Prop} {cs ds : List Char}
    {table : List (String × String)} (h : P cs ds) (ht : ∀ p ∈ table, P p.1.toList p.2.toList) :
    ∀ p ∈ (String.ofList cs, String.ofList ds) :: table, P p.1.toList p.2.toList := by
  rw [List.forall_mem_cons, String.toList_ofList, String.toList_ofList]
  exact ⟨h, ht⟩

theorem isEntry_of_mem :
    ∀ p ∈ compoundTimestampFormatPyMappings, IsEntry p.1.toList p.2.toList := by
  simp only [compoundTimestampFormatPyMappings, List.forall_mem_append]
  unfold iso8601 iso8601Variation iso8601NoT iso8601VariationNoT usDate12h usDate24h
    usDateNoTime usDateExcelOsx usDateExcelWindows
  refine ⟨⟨⟨⟨⟨⟨⟨⟨?_, ?_⟩, ?_⟩, ?_⟩, ?_⟩, ?_⟩, ?_⟩, ?_⟩, ?_⟩
  all_goals
    repeat refine forall_chars (by decide +kernel) ?_
    exact fun _ h => nomatch h

/-- All formats of the table are entries. -/
theorem exists_entry {format py : String}
    (h : (format, py) ∈ compoundTimestampFormatPyMappings) :
    ∃ dated ds zone, Entry format.toList py.toList dated ds zone := by
  obtain ⟨ds, -, hentry⟩ := (Option.any_eq_true _ _).mp (isEntry_of_mem _ h)
  exact ⟨_, ds, _, of_decide_eq_true hentry⟩

/-! ## Valid timestamps -/

section Valid
variable {today : ℕ × ℕ × ℕ} {format py timestamp : String} {dated : List Token}
  {ds : List Directive} {zone : Bool}

theorem forall₂_concat {α β : Type} {R : α → β → Prop} {l : List α} {a : α} {bs : List β}
    (h : List.Forall₂ R (l ++ [a]) bs) :
    ∃ bs' b, bs = bs' ++ [b] ∧ List.Forall₂ R l bs' ∧ R a b := by
  induction l generalizing bs with
  | nil =>
    cases h with
    | cons hab h =>
      cases h
      exact ⟨[], _, rfl, .nil, hab⟩
  | cons c l ih =>
    cases h with
    | cons hcd h =>
      obtain ⟨bs', b, rfl, hl, hab⟩ := ih h
      exact ⟨_ :: bs', b, rfl, .cons hcd hl, hab⟩

/-- The texts of an offset are one or none. -/
theorem texts_of_zone {texts : List (List Char)}
    (h : List.Forall₂ Token.Takes (dated ++ zoneTokens zone) texts) :
    ∃ texts' offset, texts = texts' ++ offset ∧ List.Forall₂ Token.Takes dated texts' ∧
      List.Forall₂ Token.Takes (zoneTokens zone) offset := by
  cases zone with
  | false =>
    rw [zoneTokens, if_neg (by decide), List.append_nil] at h
    exact ⟨texts, [], (List.append_nil _).symm, h, .nil⟩
  | true =>
    obtain ⟨texts', text, rfl, hdated, htake⟩ := forall₂_concat h
    exact ⟨texts', [text], rfl, hdated, .cons htake .nil⟩

theorem add_Z (config : Config) (text : List Char) :
    config.add .Z text = { config with tzm := some (offsetFromString text) } := by
  simp [Config.add, Token.place]

theorem read_tzm {readings : List (Token × List Char)} {config : Config}
    (h : ∀ reading ∈ readings, reading.1 ≠ .Z) : (read config readings).tzm = config.tzm := by
  induction readings generalizing config with
  | nil => rfl
  | cons reading readings ih =>
    obtain ⟨hfirst, hrest⟩ := List.forall_mem_cons.mp h
    exact (ih hrest).trans (if_neg hfirst)

/-- The texts of a timestamp's tokens. -/
def pieces (format timestamp : String) : List (Token × List Char) :=
  (scan true (tokens format.toList) timestamp.toList).1.filterMap fun found =>
    found.2.map fun text => (found.1, text)

/-- The offset in minutes that is read, if the format has one. -/
def offsetOf (offset : List (List Char)) : Option ℤ := offset.head?.map offsetFromString

theorem filterMap_zip_some {tokens : List Token} {texts : List (List Char)} :
    (tokens.zip (texts.map some)).filterMap
      (fun found => found.2.map fun text => (found.1, text)) = tokens.zip texts := by
  rw [List.zip_map_right, List.filterMap_map]
  exact List.filterMap_some

/-- An offset after the date changes the time zone only. -/
theorem read_zone (config : Config) {offset : List (List Char)}
    (h : List.Forall₂ Token.Takes (zoneTokens zone) offset) :
    read config ((zoneTokens zone).zip offset) =
      { config with tzm := (offsetOf offset).or config.tzm } := by
  cases zone with
  | false =>
    cases h
    rfl
  | true =>
    cases h with
    | cons htake h =>
      cases h
      exact add_Z config _

/-- A valid timestamp is the texts of its tokens, and gives the same moment whether it is read
strictly or not. -/
theorem valid_spec (hentry : Entry format.toList py.toList dated ds zone)
    (hvalid : (utc today true timestamp format).isValid) :
    ∃ texts offset, timestamp.toList = texts.flatten ++ offset.flatten ∧
      List.Forall₂ Token.Takes dated texts ∧
      List.Forall₂ Token.Takes (zoneTokens zone) offset ∧
      pieces format timestamp = dated.zip texts ++ (zoneTokens zone).zip offset ∧
      (read .empty (dated.zip texts)).IsDate today ∧ (read .empty (dated.zip texts)).IsHour ∧
      (utc today false timestamp format).time =
        (read .empty (dated.zip texts)).localTime today - (offsetOf offset).getD 0 * 60000 ∧
      (utc today false timestamp format).tzm = offsetOf offset := by
  simp only [utc, hentry.tokens_eq, Bool.not_true, Bool.false_or, Bool.and_eq_true,
    decide_eq_true_eq] at hvalid
  obtain ⟨⟨-, hdate⟩, ⟨hleft, hall⟩, hhour⟩ := hvalid
  obtain ⟨all, htimestamp, htakes⟩ := texts_of_scan hentry.separated_tokens hleft hall
  obtain ⟨texts, offset, rfl, hdated, hoffset⟩ := texts_of_zone htakes
  have htzm : (read .empty (dated.zip texts)).tzm = none := by
    refine read_tzm fun reading hreading heq => hentry.notMem_Z ?_
    rw [← heq]
    exact (List.of_mem_zip hreading).1
  have hread : ∀ strict, Config.ofScanned
      (scan strict (dated ++ zoneTokens zone) timestamp.toList).1 =
        { read .empty (dated.zip texts) with tzm := offsetOf offset } := by
    intro strict
    rw [htimestamp, scan_texts hentry.separated_tokens htakes, ofScanned_texts,
      List.zip_append hdated.length_eq, read_append, read_zone _ hoffset, htzm, Option.or_none]
  rw [hread] at hdate hhour
  refine ⟨texts, offset, by rw [htimestamp, List.flatten_append], hdated, hoffset, ?_, hdate,
    hhour, ?_, ?_⟩
  · rw [pieces, hentry.tokens_eq, htimestamp, scan_texts hentry.separated_tokens htakes,
      filterMap_zip_some, List.zip_append hdated.length_eq]
  · simp only [utc, hentry.tokens_eq, hread]
    rfl
  · simp only [utc, hentry.tokens_eq, hread]

end Valid

end NumentaApps.Unicorn
