import NumentaApps.TimestampReadings

/-!
# The timestamps that both ends read the same

The back end takes the same offset from the end of a timestamp, and the date and the time before
it are the same, where every text is readable to both ends.
-/
namespace NumentaApps.Unicorn
open NumericLiteral (digitsValue isPySpace)
open OrderedChoice
open Moment Strptime

/-! ## Offsets -/

section Offsets
variable {before text : List Char} {c : Char}

theorem reversedEnd_append (hc : c ≠ '\n') : reversedEnd (before ++ [c]) = c :: before.reverse := by
  unfold reversedEnd
  rw [List.reverse_append, List.reverse_singleton, List.singleton_append]
  split
  · rename_i heq
    exact absurd (List.cons.inj heq).1 hc
  · rfl

theorem digit_ne (hc : c.isDigit) : c ≠ '\n' ∧ c ≠ 'Z' ∧ c ≠ ':' ∧ isSign c = false ∧
    c.toLower ≠ 'z' := by
  have hall : ∀ d ∈ "0123456789".toList, d ≠ '\n' ∧ d ≠ 'Z' ∧ d ≠ ':' ∧ isSign d = false ∧
      d.toLower ≠ 'z' := List.all_iff_forall_prop.mp (by decide)
  exact hall c (mem_digits hc)

/-- No offset that ends in a letter is matched. -/
theorem utcOffset_letter (hc : c.toLower = 'z') :
    (basicHHMMUtcOffset (before ++ [c])).or ((extendedHHMMUtcOffset (before ++ [c])).or
      (onlyHHUtcOffset (before ++ [c]))) = none := by
  have hdigit : ¬ c.isDigit := fun h => (digit_ne h).2.2.2.2 hc
  have hnewline : c ≠ '\n' := by
    rintro rfl
    cases hc
  have hbasic : basicHHMMUtcOffset (before ++ [c]) = none := by
    rw [basicHHMMUtcOffset, reversedEnd_append hnewline]
    split
    · rename_i heq
      rw [← (List.cons.inj heq).1]
      exact if_neg fun h => hdigit h.1
    · rfl
  have hextended : extendedHHMMUtcOffset (before ++ [c]) = none := by
    rw [extendedHHMMUtcOffset, reversedEnd_append hnewline]
    split
    · rename_i heq
      rw [← (List.cons.inj heq).1]
      exact if_neg fun h => hdigit h.1
    · rfl
  have honly : onlyHHUtcOffset (before ++ [c]) = none := by
    rw [onlyHHUtcOffset, reversedEnd_append hnewline]
    split
    · rename_i heq
      rw [← (List.cons.inj heq).1]
      exact if_neg fun h => hdigit h.1
    · rfl
  rw [hbasic, hextended, honly]
  rfl

/-- The hours and the minutes of a numeric offset are matched. -/
theorem utcOffset_number {sign h h' : Char} (hsign : isSign sign) (hh : Digits [h, h']) :
    ((basicHHMMUtcOffset (before ++ [sign, h, h'])).or
      ((extendedHHMMUtcOffset (before ++ [sign, h, h'])).or
        (onlyHHUtcOffset (before ++ [sign, h, h'])))) = some (before, sign, [h, h'], ['0', '0']) ∧
    ∀ {m m' : Char}, Digits [m, m'] →
      (basicHHMMUtcOffset (before ++ [sign, h, h', m, m'])).or
        ((extendedHHMMUtcOffset (before ++ [sign, h, h', m, m'])).or
          (onlyHHUtcOffset (before ++ [sign, h, h', m, m']))) = some (before, sign, [h, h'], [m, m']) ∧
      (basicHHMMUtcOffset (before ++ [sign, h, h', ':', m, m'])).or
        ((extendedHHMMUtcOffset (before ++ [sign, h, h', ':', m, m'])).or
          (onlyHHUtcOffset (before ++ [sign, h, h', ':', m, m']))) =
        some (before, sign, [h, h'], [m, m']) := by
  have hd : h.isDigit := hh h List.mem_cons_self
  have hd' : h'.isDigit := hh h' (List.mem_cons_of_mem _ List.mem_cons_self)
  have hnodigit : ¬ sign.isDigit := by
    intro hdigit
    rw [(digit_ne hdigit).2.2.2.1] at hsign
    cases hsign
  have hcolon : sign ≠ ':' := by
    rintro rfl
    cases hsign
  constructor
  · have hend : reversedEnd (before ++ [sign, h, h']) = h' :: h :: sign :: before.reverse := by
      simpa using @reversedEnd_append (before ++ [sign, h]) h' (digit_ne hd').1
    have hbasic : basicHHMMUtcOffset (before ++ [sign, h, h']) = none := by
      rw [basicHHMMUtcOffset, hend]
      split
      · rename_i heq
        simp only [List.cons.injEq] at heq
        obtain ⟨-, -, rfl, -⟩ := heq
        exact if_neg fun h => hnodigit h.2.2.1
      · rfl
    have hextended : extendedHHMMUtcOffset (before ++ [sign, h, h']) = none := by
      rw [extendedHHMMUtcOffset, hend]
      split
      · rename_i heq
        simp only [List.cons.injEq] at heq
        obtain ⟨-, -, rfl, -⟩ := heq
        exact if_neg fun h => hcolon h.2.2.1
      · rfl
    rw [hbasic, hextended, onlyHHUtcOffset, hend]
    simp [hd, hd', hsign]
  · intro m m' hm
    have he : m.isDigit := hm m List.mem_cons_self
    have he' : m'.isDigit := hm m' (List.mem_cons_of_mem _ List.mem_cons_self)
    constructor
    · have hend : reversedEnd (before ++ [sign, h, h', m, m']) =
          m' :: m :: h' :: h :: sign :: before.reverse := by
        simpa using @reversedEnd_append (before ++ [sign, h, h', m]) m' (digit_ne he').1
      rw [basicHHMMUtcOffset, hend]
      simp [hd, hd', he, he', hsign]
    · have hend : reversedEnd (before ++ [sign, h, h', ':', m, m']) =
          m' :: m :: ':' :: h' :: h :: sign :: before.reverse := by
        simpa using @reversedEnd_append (before ++ [sign, h, h', ':', m]) m' (digit_ne he').1
      rw [basicHHMMUtcOffset, extendedHHMMUtcOffset, hend]
      simp [hd, hd', he, he', hsign]

/-- The hours and minutes that both ends can express. -/
def OffsetReadable (text : List Char) : Prop :=
  text = ['Z'] ∨ ∃ parts ∈ offsetParts text, parts.2.1 ≤ 23 ∧ parts.2.2 ≤ 59

/-- An offset of at most fifteen minutes is taken for hours. -/
def OffsetKept (text : List Char) : Prop :=
  offsetFromString text = 0 ∨ 16 ≤ (offsetFromString text).natAbs

/-- What is stripped of an offset that is not a "Z". -/
theorem stripUtcOffset_parts {sign : Char} {hours minutes : List Char}
    (hlast : (before ++ text).getLast? ≠ some 'Z') (hsign : isSign sign)
    (hmatch : (basicHHMMUtcOffset (before ++ text)).or ((extendedHHMMUtcOffset (before ++ text)).or
      (onlyHHUtcOffset (before ++ text))) = some (before, sign, hours, minutes))
    (hparts : offsetParts text =
      some (decide (sign = '+'), digitsValue hours, digitsValue minutes)) :
    (∀ b o, stripUtcOffset (before ++ text) = some (b, o) →
      b = before ∧ o = 60 * offsetFromString text) ∧
    ((∃ b o, stripUtcOffset (before ++ text) = some (b, o) ∧ -86400 < o ∧ o < 86400) ↔
      digitsValue hours ≤ 23 ∧ digitsValue minutes ≤ 59) := by
  have hoffset : offsetFromString text = if sign = '-'
      then -(60 * digitsValue hours + digitsValue minutes : ℤ)
      else 60 * digitsValue hours + digitsValue minutes := by
    have hcases : sign = '+' ∨ sign = '-' := by simpa [isSign] using hsign
    rw [offsetFromString, hparts]
    rcases hcases with rfl | rfl <;> rfl
  have hstrip : stripUtcOffset (before ++ text) =
      if 59 < digitsValue minutes ∨
        maxUtcOffsetInSeconds < (digitsValue hours * 60 + digitsValue minutes) * 60 then none
      else some (before, 60 * offsetFromString text) := by
    have hsame : (if sign = '-' then -(((digitsValue hours * 60 + digitsValue minutes) * 60 : ℕ) : ℤ)
        else (((digitsValue hours * 60 + digitsValue minutes) * 60 : ℕ) : ℤ)) =
        60 * offsetFromString text := by
      rw [hoffset]
      split <;> omega
    rw [stripUtcOffset, if_neg hlast, hmatch, ← hsame]
    rfl
  rw [hstrip]
  constructor
  · intro b o heq
    split at heq
    · cases heq
    · cases heq
      exact ⟨rfl, rfl⟩
  · rw [hoffset]
    constructor
    · rintro ⟨b, o, heq, hlow, hhigh⟩
      split at heq
      · cases heq
      · rename_i hno
        cases heq
        by_cases hneg : sign = '-'
        · rw [if_pos hneg] at hlow hhigh
          omega
        · rw [if_neg hneg] at hlow hhigh
          omega
    · rintro ⟨hhours, hminutes⟩
      refine ⟨before, _, if_neg ?_, ?_, ?_⟩
      · rw [maxUtcOffsetInSeconds]
        omega
      · split <;> omega
      · split <;> omega

/-- The offset that is stripped is the one that is read. Both ends express it where it is
readable. -/
theorem stripUtcOffset_append (htake : matchShortOffset text = some (text, [])) :
    (∀ b o, stripUtcOffset (before ++ text) = some (b, o) →
      b = before ∧ o = 60 * offsetFromString text) ∧
    ((∃ b o, stripUtcOffset (before ++ text) = some (b, o) ∧ -86400 < o ∧ o < 86400) ↔
      OffsetReadable text) := by
  have hreadable : ∀ {positive : Bool} {hours minutes : ℕ}, text ≠ ['Z'] →
      offsetParts text = some (positive, hours, minutes) →
      (OffsetReadable text ↔ hours ≤ 23 ∧ minutes ≤ 59) := by
    intro positive hours minutes hne hparts
    simp [OffsetReadable, hne, hparts]
  obtain ⟨-, hoffset⟩ := matchShortOffset_spec htake
  cases hoffset with
  | @utc c hc =>
    by_cases hZ : c = 'Z'
    · subst hZ
      have hstrip : stripUtcOffset (before ++ ['Z']) = some (before, 0) := by
        rw [stripUtcOffset, List.getLast?_concat, if_pos rfl, List.dropLast_concat]
      rw [hstrip]
      refine ⟨fun b o heq => ?_, fun _ => .inl rfl, fun _ => ⟨before, 0, rfl, by decide, by decide⟩⟩
      cases heq
      exact ⟨rfl, rfl⟩
    · have hstrip : stripUtcOffset (before ++ [c]) = none := by
        rw [stripUtcOffset, List.getLast?_concat, if_neg (fun heq => hZ (Option.some.inj heq)),
          utcOffset_letter hc]
        rfl
      rw [hstrip]
      refine ⟨(fun b o heq => nomatch heq), ?_, ?_⟩
      · rintro ⟨b, o, heq, -⟩
        cases heq
      · rintro (heq | ⟨parts, hparts, -⟩)
        · exact absurd (List.cons.inj heq).1 hZ
        · cases hparts
  | @hours sign h h' hsign hh =>
    have hlast : (before ++ [sign, h, h']).getLast? ≠ some 'Z' := by
      have hd' : h'.isDigit := hh h' (List.mem_cons_of_mem _ List.mem_cons_self)
      simpa using (digit_ne hd').2.1
    rw [hreadable (by simp) rfl]
    exact stripUtcOffset_parts hlast hsign (utcOffset_number hsign hh).1 rfl
  | @minutes sign h h' m m' hsign hh hm =>
    have hlast : (before ++ [sign, h, h', m, m']).getLast? ≠ some 'Z' := by
      have hd' : m'.isDigit := hm m' (List.mem_cons_of_mem _ List.mem_cons_self)
      simpa using (digit_ne hd').2.1
    rw [hreadable (by simp) rfl]
    exact stripUtcOffset_parts hlast hsign ((utcOffset_number hsign hh).2 hm).1 rfl
  | @extended sign h h' m m' hsign hh hm =>
    have hlast : (before ++ [sign, h, h', ':', m, m']).getLast? ≠ some 'Z' := by
      have hd' : m'.isDigit := hm m' (List.mem_cons_of_mem _ List.mem_cons_self)
      simpa using (digit_ne hd').2.1
    rw [hreadable (by simp) rfl]
    exact stripUtcOffset_parts hlast hsign ((utcOffset_number hsign hh).2 hm).2 rfl

end Offsets
/-! ## The same date and time -/

section Same
variable {today : ℕ × ℕ × ℕ} {format py : List Char} {dated tokens : List Token}
  {ds : List Directive} {zone seconds twelve : Bool} {texts : List (List Char)}

theorem places_zip (h : tokens.length = texts.length) :
    places (tokens.zip texts) = tokens.filterMap Token.place := by
  conv_rhs => rw [← List.map_fst_zip (Nat.le_of_eq h), List.filterMap_map]
  rfl

theorem mem_zip_of_mem {token : Token} (h : List.Forall₂ Token.Takes tokens texts)
    (hmem : token ∈ tokens) : ∃ text, (token, text) ∈ tokens.zip texts ∧ token.Takes text := by
  obtain ⟨hlength, htakes⟩ := List.forall₂_iff_zip.mp h
  rw [← List.map_fst_zip (Nat.le_of_eq hlength)] at hmem
  obtain ⟨⟨t, text⟩, hzip, rfl⟩ := List.mem_map.mp hmem
  exact ⟨text, hzip, htakes hzip⟩

/-- All texts are accepted where each token's directive accepts its text. -/
theorem forall_accepts (haligned : Aligned seconds twelve tokens ds)
    (htakes : List.Forall₂ Token.Takes tokens texts)
    (h : ∀ token directive text, (token, text) ∈ tokens.zip texts → token.Takes text →
      pairs seconds twelve token directive → Accepts directive text) :
    ∀ g ∈ ds.zip texts, Accepts g.1 g.2 := by
  induction htakes generalizing ds with
  | nil =>
    cases haligned
    exact fun _ h => nomatch h
  | cons htake htakes ih =>
    cases haligned with
    | cons hpair haligned =>
      rw [List.zip_cons_cons] at h ⊢
      refine List.forall_mem_cons.mpr ⟨h _ _ _ List.mem_cons_self htake hpair, ?_⟩
      exact ih haligned fun token directive text hmem =>
        h token directive text (List.mem_cons_of_mem _ hmem)

theorem accepts_of_forall (haligned : Aligned seconds twelve tokens ds)
    (htakes : List.Forall₂ Token.Takes tokens texts)
    (h : ∀ g ∈ ds.zip texts, Accepts g.1 g.2) :
    ∀ piece ∈ tokens.zip texts, ∃ directive, pairs seconds twelve piece.1 directive ∧
      Accepts directive piece.2 := by
  induction htakes generalizing ds with
  | nil => exact fun _ h => nomatch h
  | cons htake htakes ih =>
    cases haligned with
    | cons hpair haligned =>
      rw [List.zip_cons_cons] at h ⊢
      obtain ⟨hfirst, hrest⟩ := List.forall_mem_cons.mp h
      exact List.forall_mem_cons.mpr ⟨⟨_, hpair, hfirst⟩, ih haligned hrest⟩

/-- The meridiem is the last text. -/
theorem read_meridiem {config : Config} {text : List Char} (hsep : separated tokens)
    (hmem : (Token.A, text) ∈ tokens.zip texts) :
    (read config (tokens.zip texts)).meridiem = some text := by
  induction tokens generalizing texts config with
  | nil => cases hmem
  | cons token tokens ih =>
    cases texts with
    | nil => cases hmem
    | cons first texts =>
      rw [List.zip_cons_cons] at hmem ⊢
      rcases List.mem_cons.mp hmem with heq | hmem
      · cases heq
        obtain rfl := separated_last hsep rfl
        rfl
      · exact ih (Bool.and_eq_true_iff.mp hsep).2 hmem

/-- The two dates and times that have been read of an entry's texts. -/
structure Readings (format py : List Char) (dated : List Token) (ds : List Directive) (zone : Bool)
    (texts : List (List Char)) (config : Config) (found : Found) : Prop where
  entry : Entry format py dated ds zone
  takes : List.Forall₂ Token.Takes dated texts
  config_eq : config = read .empty (dated.zip texts)
  found_eq : found = Found.ofGroups (ds.zip texts)

variable {config : Config} {found : Found}

theorem Readings.alike (h : Readings format py dated ds zone texts config found) :
    Alike (Token.ss ∈ dated) (Token.hh ∈ dated) config found := by
  rw [h.config_eq, h.found_eq]
  exact alike_read (.empty _ _) h.entry.aligned h.entry.separated_dated h.takes

theorem Readings.number (h : Readings format py dated ds zone texts config found) {token : Token}
    {text : List Char} {place : Place} (hmem : (token, text) ∈ dated.zip texts)
    (hplace : token.place = some place) : config.a place = some (token.number text) := by
  rw [h.config_eq]
  refine read_a_of_mem ?_ hmem hplace
  rw [places_zip h.takes.length_eq]
  exact h.entry.nodup

/-- A place that has been read is of a token with an accepted text. -/
theorem Readings.piece (h : Readings format py dated ds zone texts config found) {place : Place}
    (hplace : place ∈ dated.filterMap Token.place) : ∃ token text,
      (token, text) ∈ dated.zip texts ∧ token.Takes text ∧ token.place = some place ∧
        config.a place = some (token.number text) := by
  obtain ⟨token, hmem, hplace⟩ := List.mem_filterMap.mp hplace
  obtain ⟨text, hzip, htake⟩ := mem_zip_of_mem h.takes hmem
  exact ⟨token, text, hzip, htake, hplace, h.number hzip hplace⟩

theorem Readings.mem_place (h : Readings format py dated ds zone texts config found) {place : Place}
    {n : ℕ} (hplace : config.a place = some n) : place ∈ dated.filterMap Token.place := by
  by_contra hnot
  rw [← places_zip h.takes.length_eq] at hnot
  have hnone := @read_a_of_notMem _ _ .empty hnot
  rw [← h.config_eq, hplace] at hnone
  cases hnone

/-- A text that both ends read the same. -/
def Readable (format : List Token) (piece : Token × List Char) : Prop :=
  match piece.1 with
  | .YYYY => piece.2 ≠ ['0', '0', '0', '0']
  | .HH | .H => piece.2 ≠ ['2', '4']
  | .S _ => Token.ss ∈ format ∨ piece.2 = ['0', '0']
  | .A => piece.2.map Char.toLower = ['a', 'm'] ∨ piece.2.map Char.toLower = ['p', 'm']
  | .Z => OffsetReadable piece.2 ∧ OffsetKept piece.2
  | _ => True

theorem shortTexts_spec : ∀ text ∈ shortTexts, (digitsValue text = 24 → text = ['2', '4']) ∧
    (text.length = 2 → digitsValue text = 0 → text = ['0', '0']) ∧ digitsValue text ≤ 99 := by
  decide +kernel

theorem daysInMonth_le (year month : ℕ) : daysInMonth year month ≤ 31 := by
  unfold daysInMonth
  split
  · split <;> omega
  · split <;> omega

/-- The hundred years that a JavaScript date confuses have their leap years in common, but for
the first. -/
theorem monthDays_eq {year : ℕ} (h : 1 ≤ year) (month : ℕ) :
    monthDays year month = daysInMonth year month := by
  unfold monthDays
  split
  · have hleap : isLeapYear (1900 + year) = isLeapYear year := by
      unfold isLeapYear
      rw [Bool.eq_iff_iff]
      simp only [Bool.or_eq_true, Bool.and_eq_true, decide_eq_true_eq]
      omega
    rw [daysInMonth, daysInMonth, hleap]
  · rfl

/-- A meridiem is accepted in two letters. -/
theorem accepts_p {text : List Char} : Accepts .p text ↔
    text.map Char.toLower = ['a', 'm'] ∨ text.map Char.toLower = ['p', 'm'] := by
  match text with
  | [] =>
    constructor
    · intro h
      exact absurd h (by decide)
    · rintro (h | h) <;> cases h
  | [c] => simp [Accepts, Directive.group, Group.candidates, matchClasses, ignoreCase]
  | [c, d] =>
    simp only [Accepts, Directive.group, Group.candidates, List.filterMap_cons, List.filterMap_nil,
      matchClasses, ignoreCase, decide_eq_true_eq, List.map_cons, List.map_nil, List.cons.injEq,
      and_true]
    by_cases ha : c.toLower = 'a'
    · by_cases hm : d.toLower = 'm'
      · simp [ha, hm]
      · simp [ha, hm]
    · by_cases hp : c.toLower = 'p'
      · by_cases hm : d.toLower = 'm'
        · simp [hp, hm]
        · simp [hp, hm]
      · simp [ha, hp]
  | c :: d :: e :: rest =>
    constructor
    · intro h
      have hmem := List.mem_of_head? h
      obtain ⟨ks, hks, hp⟩ := List.mem_filterMap.mp hmem
      have hlength := (matchClasses_split hp).2
      have htwo : ks.length = 2 := by
        have hall : ∀ ks ∈ [[ignoreCase 'a', ignoreCase 'm'], [ignoreCase 'p', ignoreCase 'm']],
            ks.length = 2 := by simp
        exact hall ks hks
      simp only [List.length_cons] at hlength
      omega
    · rintro (h | h) <;> simp at h

/-- The texts of a valid timestamp that are readable are accepted. -/
theorem Readings.accepts (h : Readings format py dated ds zone texts config found)
    (hdate : config.IsDate today) (hhour : config.IsHour)
    (hreadable : ∀ piece ∈ dated.zip texts, Readable dated piece) :
    ∀ g ∈ ds.zip texts, Accepts g.1 g.2 := by
  refine forall_accepts h.entry.aligned h.takes fun token directive text hmem htake hpair => ?_
  obtain ⟨hmonth, hday, ⟨hhours, -⟩, hminute, hsecond, -⟩ := hdate
  have hread := hreadable _ hmem
  have hshort : directive ∈ shortDirectives → text ∈ shortTexts :=
    fun hshort => short_of_pairs hpair hshort htake
  cases token with
  | Z => cases directive <;> cases hpair
  | YYYY =>
    cases directive with
    | Y => exact accepts_year htake.1 htake.2
    | _ => cases hpair
  | YY =>
    cases directive with
    | y => exact (accepts_short text (hshort (by decide))).2.2.2.2 htake.2
    | _ => cases hpair
  | MM | M =>
    have hnumber := h.number hmem rfl
    rw [Config.month, hnumber] at hmonth
    cases directive with
    | m => exact ((accepts_short text (hshort (by decide))).1 hmonth).1
    | _ => cases hpair
  | DD | D =>
    have hnumber := h.number hmem rfl
    rw [Config.day, hnumber] at hday
    cases directive with
    | d =>
      have hle := hday.2.trans (daysInMonth_le _ _)
      exact (accepts_short text (hshort (by decide))).2.1 ⟨hday.1, hle⟩
    | _ => cases hpair
  | HH | H =>
    have hnumber := h.number hmem rfl
    cases directive with
    | H =>
      have htwelve : decide (Token.hh ∈ dated) = false := by simpa [pairs] using hpair
      obtain ⟨-, hmeridiem⟩ := h.alike.notTwelve htwelve
      rw [Config.hour, hmeridiem, hnumber] at hhours
      have hle : digitsValue text ≤ 24 := hhours
      have hne : digitsValue text ≠ 24 :=
        fun heq => hread ((shortTexts_spec text (hshort (by decide))).1 heq)
      exact (accepts_short text (hshort (by decide))).2.2.1.mpr (by omega)
    | _ => cases hpair
  | hh =>
    have hnumber := h.number hmem rfl
    cases directive with
    | I =>
      have hbig : config.bigHour := by
        rw [h.alike.bigHour, h.alike.ofTwelve hpair, hnumber]
        rfl
      have hrange := hhour hbig
      rw [hnumber] at hrange
      exact ((accepts_short text (hshort (by decide))).1 (of_decide_eq_true hrange)).2
    | _ => cases hpair
  | mm =>
    have hnumber := h.number hmem rfl
    rw [Config.minute, hnumber] at hminute
    cases directive with
    | M => exact ((accepts_short text (hshort (by decide))).2.2.2.1 hminute).1
    | _ => cases hpair
  | ss =>
    have hnumber := h.number hmem rfl
    rw [Config.second, hnumber] at hsecond
    cases directive with
    | S => exact ((accepts_short text (hshort (by decide))).2.2.2.1 hsecond).2
    | _ => cases hpair
  | S n =>
    cases directive with
    | f =>
      have hn := separated_fraction h.entry.separated_dated (List.of_mem_zip hmem).1
      have hlength : text.length = n := htake.2
      exact accepts_fraction htake.1 (by omega) (by omega)
    | S =>
      simp only [pairs, Bool.and_eq_true, decide_eq_true_eq, Bool.not_eq_true',
        decide_eq_false_iff_not] at hpair
      obtain rfl := hread.resolve_left hpair.1
      decide
    | _ => cases hpair
  | A =>
    cases directive with
    | p => exact accepts_p.mpr hread
    | _ => cases hpair
  | literal c =>
    obtain rfl : text = [c] := htake
    cases directive with
    | space =>
      obtain rfl := of_decide_eq_true hpair
      decide
    | literal d =>
      simp only [pairs, Bool.and_eq_true, decide_eq_true_eq] at hpair
      obtain ⟨rfl, -⟩ := hpair
      rw [Accepts, candidates_literal]
      rfl
    | _ => cases hpair

/-- Both ends have read the year, the month and the day. -/
theorem Readings.value_eq (h : Readings format py dated ds zone texts config found) {place : Place}
    (hplace : place ∈ dated.filterMap Token.place) (hs : place ≠ .SECOND)
    (hms : place ≠ .MILLISECOND) :
    ∃ n, config.a place = some n ∧ found.value (variableOf place) = some n := by
  obtain ⟨token, text, -, -, -, hn⟩ := h.piece hplace
  exact ⟨_, hn, (h.alike.value place hs hms).trans hn⟩

/-- An hour of twenty-four is the same, as long as it is not the end of the day. -/
theorem Readings.hour24 (h : Readings format py dated ds zone texts config found)
    (htwelve : Token.hh ∉ dated) (haccepts : ∀ g ∈ ds.zip texts, Accepts g.1 g.2) :
    found.hour = config.hour ∧ config.hour ≤ 23 := by
  obtain ⟨hnot, hmeridiem⟩ := h.alike.notTwelve (decide_eq_false htwelve)
  have hvalue : found.value .hour = config.a .HOUR := h.alike.value .HOUR (by decide) (by decide)
  have hconfig : config.hour = (config.a .HOUR).getD 0 := by
    rw [Config.hour, hmeridiem]
    rfl
  have hfound : found.hour = (found.value .hour).getD 0 := by
    rw [Found.hour, hnot]
    rfl
  rw [hfound, hvalue, hconfig]
  refine ⟨rfl, ?_⟩
  cases hhour : config.a .HOUR with
  | none => exact Nat.zero_le _
  | some n =>
    obtain ⟨token, text, hmem, htake, hplace, hnumber⟩ := h.piece (h.mem_place hhour)
    obtain ⟨directive, hpair, haccept⟩ :=
      accepts_of_forall h.entry.aligned h.takes haccepts _ hmem
    obtain rfl : token.number text = n := Option.some.inj (hnumber.symm.trans hhour)
    have hle : directive = .H → digitsValue text ≤ 23 := by
      rintro rfl
      exact (accepts_short text (short_of_pairs hpair (by decide) htake)).2.2.1.mp haccept
    cases token with
    | HH | H =>
      cases directive with
      | H => exact hle rfl
      | _ => cases hpair
    | hh => exact absurd (List.of_mem_zip hmem).1 htwelve
    | _ => cases hplace

/-- So is an hour of twelve with its meridiem. -/
theorem Readings.hour12 (h : Readings format py dated ds zone texts config found)
    (htwelve : Token.hh ∈ dated) (hhour : config.IsHour)
    (haccepts : ∀ g ∈ ds.zip texts, Accepts g.1 g.2) :
    found.hour = config.hour ∧ config.hour ≤ 23 := by
  have hhours : Place.HOUR ∈ dated.filterMap Token.place :=
    List.mem_filterMap.mpr ⟨.hh, htwelve, rfl⟩
  obtain ⟨n, hn, hvalue⟩ := h.value_eq hhours (by decide) (by decide)
  change found.value .hour = some n at hvalue
  have hof : found.twelve = true := by
    rw [h.alike.ofTwelve (decide_eq_true htwelve), hn]
    rfl
  have hrange := hhour (h.alike.bigHour.trans hof)
  rw [hn] at hrange
  have hrange : 1 ≤ n ∧ n ≤ 12 := of_decide_eq_true hrange
  obtain ⟨text, hmem, -⟩ := mem_zip_of_mem h.takes (h.entry.meridiem htwelve)
  have hmeridiem : config.meridiem = some text := by
    rw [h.config_eq]
    exact read_meridiem h.entry.separated_dated hmem
  have hampm : found.ampm = text.map Char.toLower := by
    rw [h.alike.ampm, hmeridiem]
    rfl
  obtain ⟨directive, hpair, haccept⟩ := accepts_of_forall h.entry.aligned h.takes haccepts _ hmem
  have htext : text.map Char.toLower = ['a', 'm'] ∨ text.map Char.toLower = ['p', 'm'] := by
    cases directive with
    | p => exact accepts_p.mp haccept
    | _ => cases hpair
  have hpm : isPM text = true ↔ text.map Char.toLower = ['p', 'm'] := by
    match text, htext with
    | [], h => rcases h with h | h <;> cases h
    | c :: cs, h =>
      rcases h with h | h
      · simp [isPM, (List.cons.inj h).1]
      · simp [isPM, h, (List.cons.inj h).1]
  rw [Found.hour, Config.hour, hmeridiem, hvalue, hn, hof, hampm]
  rcases htext with hlower | hlower
  · have hnot : isPM text = false := by
      apply Bool.eq_false_of_not_eq_true
      rw [hpm, hlower]
      decide
    rcases Nat.lt_or_eq_of_le hrange.2 with hlt | rfl
    · simp [meridiemFixWrap, hnot, hlower, Nat.ne_of_lt hlt]
      omega
    · simp [meridiemFixWrap, hnot, hlower]
  · have hyes : isPM text = true := by
      rw [hpm, hlower]
    rcases Nat.lt_or_eq_of_le hrange.2 with hlt | rfl
    · simp [meridiemFixWrap, hyes, hlower, Nat.ne_of_lt hlt, hlt]
      omega
    · simp [meridiemFixWrap, hyes, hlower]

theorem Readings.hour (h : Readings format py dated ds zone texts config found)
    (hhour : config.IsHour) (haccepts : ∀ g ∈ ds.zip texts, Accepts g.1 g.2) :
    found.hour = config.hour ∧ config.hour ≤ 23 := by
  by_cases htwelve : Token.hh ∈ dated
  · exact h.hour12 htwelve hhour haccepts
  · exact h.hour24 htwelve haccepts

/-- The date and the minutes are the same. -/
theorem Readings.date (h : Readings format py dated ds zone texts config found)
    (today : ℕ × ℕ × ℕ) : found.toDateTime.year = config.year today ∧
      found.toDateTime.month = config.month today ∧ found.toDateTime.day = config.day today ∧
      found.toDateTime.minute = config.minute := by
  obtain ⟨year, hyear, hyear'⟩ := h.value_eq h.entry.year (by decide) (by decide)
  obtain ⟨month, hmonth, hmonth'⟩ := h.value_eq h.entry.month (by decide) (by decide)
  obtain ⟨day, hday, hday'⟩ := h.value_eq h.entry.day (by decide) (by decide)
  have hminute : found.value .minute = config.a .MINUTE :=
    h.alike.value .MINUTE (by decide) (by decide)
  change found.value .year = some year at hyear'
  change found.value .month = some month at hmonth'
  change found.value .day = some day at hday'
  simp only [Found.toDateTime, Config.year, Config.month, Config.day, Config.minute, hyear,
    hyear', hmonth, hmonth', hday, hday', hminute, Option.getD_some, and_self]

/-- The hundredths of a second that the back end takes for seconds. -/
def hundredths (dated : List Token) (found : Found) : ℕ :=
  if Token.ss ∈ dated then 0 else (found.value .second).getD 0

/-- The seconds and their fraction are the same but for the hundredths. -/
theorem Readings.second (h : Readings format py dated ds zone texts config found) :
    found.toDateTime.second = config.second + hundredths dated found ∧
      found.toDateTime.microsecond + 10000 * hundredths dated found = 1000 * config.millisecond := by
  by_cases hss : Token.ss ∈ dated
  · obtain ⟨hsecond, hmicrosecond⟩ := h.alike.second (decide_eq_true hss)
    simp only [Found.toDateTime, Config.second, Config.millisecond, hundredths, if_pos hss, hsecond,
      hmicrosecond]
    cases config.a .MILLISECOND with
    | none => exact ⟨rfl, rfl⟩
    | some n => exact ⟨rfl, rfl⟩
  · obtain ⟨hsecond, hmicrosecond, hmillisecond⟩ := h.alike.hundredths (decide_eq_false hss)
    simp only [Found.toDateTime, Config.second, Config.millisecond, hundredths, if_neg hss, hsecond,
      hmicrosecond, hmillisecond]
    cases found.value .second with
    | none => exact ⟨rfl, rfl⟩
    | some n =>
      simp only [Option.getD_some, Option.getD_none, Option.map_some]
      omega

theorem Readings.localTime (h : Readings format py dated ds zone texts config found)
    (hhour : found.hour = config.hour) (today : ℕ × ℕ × ℕ) :
    found.toDateTime.localTime = 1000 * config.localTime today + 990000 * hundredths dated found := by
  obtain ⟨hyear, hmonth, hday, hminute⟩ := h.date today
  obtain ⟨hsecond, hmicrosecond⟩ := h.second
  have hhour : found.toDateTime.hour = config.hour := hhour
  rw [DateTime.localTime, Config.localTime, hyear, hmonth, hday, hminute, hsecond, hhour]
  omega

/-- A year has at most four digits, and is not the year 0 where it is readable. -/
theorem Readings.year (h : Readings format py dated ds zone texts config found)
    (today : ℕ × ℕ × ℕ) : config.year today ≤ 9999 ∧
      ((∀ piece ∈ dated.zip texts, Readable dated piece) → 1 ≤ config.year today) := by
  obtain ⟨token, text, hmem, htake, hplace, hnumber⟩ := h.piece h.entry.year
  have hyear : config.year today = token.number text := by
    rw [Config.year, hnumber]
    rfl
  rw [hyear]
  cases token with
  | YYYY =>
    obtain ⟨hd, hlength⟩ := htake
    have hvalue : Token.YYYY.number text = digitsValue text := if_neg (by omega)
    have hlt := NumericLiteral.digitsValue_lt hd
    rw [hlength] at hlt
    rw [hvalue]
    refine ⟨by omega, fun hreadable => Nat.one_le_iff_ne_zero.mpr fun hzero => ?_⟩
    apply hreadable _ hmem
    have htext := NumericLiteral.eq_zero_of_digitsValue hd hzero
    rw [hlength] at htext
    exact htext
  | YY =>
    have hle := (shortTexts_spec text (mem_shortTexts htake.1 (by rw [htake.2]; decide)
      (Nat.le_of_eq htake.2))).2.2
    have hvalue : 1900 ≤ Token.YY.number text ∧ Token.YY.number text ≤ 9999 := by
      rw [Token.number, parseTwoDigitYear]
      split <;> omega
    exact ⟨hvalue.2, fun _ => by omega⟩
  | _ => cases hplace

/-- Hundredths that are readable are none. -/
theorem Readings.hundredths_eq_zero (h : Readings format py dated ds zone texts config found)
    (hreadable : ∀ piece ∈ dated.zip texts, Readable dated piece) : hundredths dated found = 0 := by
  unfold hundredths
  split
  · rfl
  · rename_i hss
    obtain ⟨-, -, hmillisecond⟩ := h.alike.hundredths (decide_eq_false hss)
    cases hsecond : found.value .second with
    | none => rfl
    | some v =>
      rw [hsecond] at hmillisecond
      obtain ⟨token, text, hmem, -, hplace, hnumber⟩ := h.piece (h.mem_place hmillisecond)
      have hten : 10 * v = token.number text := Option.some.inj (hmillisecond.symm.trans hnumber)
      cases token with
      | S n =>
        obtain rfl := (hreadable _ hmem).resolve_left hss
        have hzero : (Token.S n).number ['0', '0'] = 0 := rfl
        rw [Option.getD_some]
        omega
      | _ => cases hplace

/-- A date and a time of which all texts are readable are in range. -/
theorem Readings.isDate (h : Readings format py dated ds zone texts config found)
    (hdate : config.IsDate today) (hhour : found.hour = config.hour ∧ config.hour ≤ 23)
    (hreadable : ∀ piece ∈ dated.zip texts, Readable dated piece) :
    found.toDateTime.IsDate := by
  obtain ⟨hmonth, hday, -, hminute, hsecond, hmillisecond⟩ := hdate
  obtain ⟨hyear, hmonth', hday', hminute'⟩ := h.date today
  obtain ⟨hsecond', hmicrosecond⟩ := h.second
  obtain ⟨hmost, hleast⟩ := h.year today
  rw [h.hundredths_eq_zero hreadable] at hsecond' hmicrosecond
  rw [monthDays_eq (hleast hreadable)] at hday
  have hhour' : found.toDateTime.hour = config.hour := hhour.1
  rw [DateTime.IsDate, hyear, hmonth', hday', hminute', hsecond', hhour']
  refine ⟨⟨hleast hreadable, hmost⟩, hmonth, hday, hhour.2, hminute, by omega, by omega⟩

/-- The texts are readable where the back end accepts them and reads the same. -/
theorem Readings.readable (h : Readings format py dated ds zone texts config found)
    (haccepts : ∀ g ∈ ds.zip texts, Accepts g.1 g.2) (hdate : found.toDateTime.IsDate)
    (hzero : hundredths dated found = 0) : ∀ piece ∈ dated.zip texts, Readable dated piece := by
  rintro ⟨token, text⟩ hmem
  obtain ⟨directive, hpair, haccept⟩ := accepts_of_forall h.entry.aligned h.takes haccepts _ hmem
  have htake : token.Takes text := (List.forall₂_iff_zip.mp h.takes).2 hmem
  cases token with
  | YYYY =>
    rintro rfl
    have hyear := (h.date (0, 0, 0)).1
    rw [Config.year, h.number hmem rfl] at hyear
    have hleast := hdate.1.1
    rw [hyear] at hleast
    exact absurd hleast (by decide)
  | HH | H =>
    cases directive with
    | H =>
      rintro rfl
      exact absurd haccept (by decide)
    | _ => cases hpair
  | S n =>
    by_cases hss : Token.ss ∈ dated
    · exact .inl hss
    · refine .inr ?_
      cases directive with
      | f => exact absurd (of_decide_eq_true hpair) hss
      | S =>
        simp only [pairs, Bool.and_eq_true, decide_eq_true_eq] at hpair
        obtain rfl := hpair.2
        obtain ⟨-, -, hmillisecond⟩ := h.alike.hundredths (decide_eq_false hss)
        rw [h.number hmem rfl] at hmillisecond
        obtain ⟨v, hv, hten⟩ := Option.map_eq_some_iff.mp hmillisecond.symm
        rw [hundredths, if_neg hss, hv, Option.getD_some] at hzero
        have hvalue : digitsValue text * 10 ^ (3 - text.length) = 0 := by
          refine hten.symm.trans ?_
          rw [hzero]
        rw [htake.2] at hvalue
        have htext := NumericLiteral.eq_zero_of_digitsValue htake.1 (by omega)
        rw [htake.2] at htext
        exact htext
      | _ => cases hpair
  | A =>
    cases directive with
    | p => exact accepts_p.mp haccept
    | _ => cases hpair
  | Z => cases directive <;> cases hpair
  | _ => trivial

/-- The back end reads the date before an offset where it accepts all texts. -/
theorem Readings.strptime_eq_some (h : Readings format py dated ds zone texts config found)
    {t : DateTime} :
    strptime texts.flatten (if zone then py.dropLast.dropLast else py) = some t ↔
      (∀ g ∈ ds.zip texts, Accepts g.1 g.2) ∧ found.toDateTime.IsDate ∧ found.toDateTime = t := by
  have hdirectives : directives (if zone then py.dropLast.dropLast else py) = some ds :=
    h.entry.directives_eq
  rw [strptime, hdirectives, h.found_eq, Option.bind_eq_bind, Option.bind_some]
  constructor
  · intro hsome
    obtain ⟨⟨groups, unconverted⟩, hmatch, hdate⟩ := Option.bind_eq_some_iff.mp hsome
    dsimp only at hdate
    split at hdate
    · rename_i hend
      obtain ⟨rfl, haccepts⟩ := ways_texts h.entry.aligned h.entry.separated_dated h.takes
        (List.mem_of_head? hmatch) hend.1
      exact ⟨haccepts, hend.2, Option.some.inj hdate⟩
    · cases hdate
  · rintro ⟨haccepts, hdate, rfl⟩
    have hmatch := matchPrefix_texts h.entry.aligned h.entry.separated_dated h.takes haccepts
    refine Option.bind_eq_some_iff.mpr ⟨(ds.zip texts, []), hmatch, ?_⟩
    exact if_pos ⟨rfl, hdate⟩

/-- The back end reads the same date and time exactly where all texts of them are readable. -/
theorem Readings.same_iff (h : Readings format py dated ds zone texts config found)
    (hdate : config.IsDate today) (hhour : config.IsHour) :
    (∃ t, strptime texts.flatten (if zone then py.dropLast.dropLast else py) = some t ∧
      t.localTime = 1000 * config.localTime today) ↔
      ∀ piece ∈ dated.zip texts, Readable dated piece := by
  constructor
  · rintro ⟨t, hparse, hlocal⟩
    obtain ⟨haccepts, hisdate, rfl⟩ := h.strptime_eq_some.mp hparse
    rw [h.localTime (h.hour hhour haccepts).1 today] at hlocal
    exact h.readable haccepts hisdate (by omega)
  · intro hreadable
    have haccepts := h.accepts hdate hhour hreadable
    have hhours := h.hour hhour haccepts
    refine ⟨found.toDateTime, h.strptime_eq_some.mpr ⟨haccepts, ?_, rfl⟩, ?_⟩
    · exact h.isDate hdate hhours hreadable
    · rw [h.localTime hhours.1 today, h.hundredths_eq_zero hreadable]
      omega

theorem strptime_utcoffset {timestamp format : List Char} {t : DateTime}
    (h : strptime timestamp format = some t) : t.utcoffset = none := by
  obtain ⟨ds, -, h⟩ := Option.bind_eq_some_iff.mp h
  obtain ⟨found, -, h⟩ := Option.bind_eq_some_iff.mp h
  dsimp only at h
  split at h
  · cases h
    rfl
  · cases h

end Same

/-! ## The two readers -/

section Readers
variable {today : ℕ × ℕ × ℕ} {timestamp format py : String}

/-- The back end accepts a timestamp, and has its instant and its offset from the UTC as the front
end does. -/
def ReadersAgree (today : ℕ × ℕ × ℕ) (timestamp format py : String) : Prop :=
  let parsed := parseTimestampFallbackUtc today timestamp format
  ∃ t, parseDatetime timestamp py = some t ∧ t.isoformatRaises = false ∧
    t.time = 1000 * parsed.1.time ∧
    t.utcoffset = if parsed.2 then some (60 * parsed.1.offset) else none

instance : Decidable (ReadersAgree today timestamp format py) :=
  decidable_of_iff ((parseDatetime timestamp py).any fun t => t.isoformatRaises = false ∧
      t.time = 1000 * (parseTimestampFallbackUtc today timestamp format).1.time ∧
      t.utcoffset = if (parseTimestampFallbackUtc today timestamp format).2 then
        some (60 * (parseTimestampFallbackUtc today timestamp format).1.offset) else none)
    (by simp [ReadersAgree, Option.any_eq_true])

theorem readable_append {dated zone : List Token} (hzone : Token.ss ∉ zone)
    (piece : Token × List Char) : Readable (dated ++ zone) piece ↔ Readable dated piece := by
  obtain ⟨token, text⟩ := piece
  cases token with
  | S n => simp only [Readable, List.mem_append, hzone, or_false]
  | _ => exact Iff.rfl

/-- A format without an offset. -/
theorem readersAgree_naive {texts : List (List Char)} {parsed : Moment}
    (hpy : ¬ "%z".toList <:+ py.toList) (htimestamp : timestamp.toList = texts.flatten)
    (hparsed : parseTimestampFallbackUtc today timestamp format = (parsed, false)) :
    ReadersAgree today timestamp format py ↔
      ∃ t, strptime texts.flatten py.toList = some t ∧ t.localTime = 1000 * parsed.time := by
  rw [ReadersAgree, hparsed, parseDatetime, if_neg hpy, htimestamp]
  constructor
  · rintro ⟨t, hparse, -, htime, -⟩
    refine ⟨t, hparse, ?_⟩
    rw [DateTime.time, strptime_utcoffset hparse] at htime
    simpa using htime
  · rintro ⟨t, hparse, htime⟩
    have hoffset := strptime_utcoffset hparse
    refine ⟨t, hparse, ?_, ?_, hoffset⟩
    · rw [DateTime.isoformatRaises, hoffset]
      rfl
    · rw [DateTime.time, hoffset, htime]
      simp

/-- A format with an offset. -/
theorem readersAgree_aware {texts : List (List Char)} {text : List Char} {parsed : Moment}
    {localTime : ℤ} (hpy : "%z".toList <:+ py.toList)
    (htimestamp : timestamp.toList = texts.flatten ++ text)
    (htake : matchShortOffset text = some (text, []))
    (hparsed : parseTimestampFallbackUtc today timestamp format = (parsed, true))
    (hoffset : parsed.offset = if (offsetFromString text).natAbs < 16 then
      offsetFromString text * 60 else offsetFromString text)
    (htime : parsed.time = localTime - offsetFromString text * 60000) :
    ReadersAgree today timestamp format py ↔
      (∃ t, strptime texts.flatten py.toList.dropLast.dropLast = some t ∧
        t.localTime = 1000 * localTime) ∧ OffsetReadable text ∧ OffsetKept text := by
  obtain ⟨hstrip, hreadable⟩ := @stripUtcOffset_append texts.flatten _ htake
  rw [ReadersAgree, hparsed, parseDatetime, if_pos hpy, htimestamp, ← hreadable]
  constructor
  · rintro ⟨t, hparse, hiso, hsame, hutcoffset⟩
    obtain ⟨⟨before, offset⟩, hstripped, hparse⟩ := Option.bind_eq_some_iff.mp hparse
    obtain ⟨rfl, rfl⟩ := hstrip _ _ hstripped
    obtain ⟨result, hresult, heq⟩ := Option.bind_eq_some_iff.mp hparse
    obtain rfl := Option.some.inj heq
    refine ⟨⟨result, hresult, ?_⟩, ⟨_, _, hstripped, ?_⟩, ?_⟩
    · have hsame : result.localTime - 60 * offsetFromString text * 1000000 = 1000 * parsed.time :=
        hsame
      omega
    · simpa [DateTime.isoformatRaises] using hiso
    · have hshown : 60 * offsetFromString text = 60 * parsed.offset := Option.some.inj hutcoffset
      rw [hoffset] at hshown
      rw [OffsetKept]
      split at hshown <;> omega
  · rintro ⟨⟨t, hparse, hlocal⟩, ⟨before, offset, hstripped, hbounds⟩, hkept⟩
    obtain ⟨rfl, rfl⟩ := hstrip _ _ hstripped
    refine ⟨{ t with utcoffset := some (60 * offsetFromString text) }, ?_, ?_, ?_, ?_⟩
    · exact Option.bind_eq_some_iff.mpr
        ⟨_, hstripped, Option.bind_eq_some_iff.mpr ⟨t, hparse, rfl⟩⟩
    · simpa [DateTime.isoformatRaises] using hbounds
    · change t.localTime - 60 * offsetFromString text * 1000000 = 1000 * parsed.time
      omega
    · have hshown : parsed.offset = offsetFromString text := by
        rw [hoffset]
        rcases hkept with hzero | hlarge
        · rw [hzero]
          rfl
        · exact if_neg (by omega)
      rw [if_pos rfl, hshown]

/-- The readers agree on a valid timestamp exactly where all its texts are readable. -/
theorem readersAgree_iff (hformat : (format, py) ∈ compoundTimestampFormatPyMappings)
    (hvalid : (utc today true timestamp format).isValid) :
    ReadersAgree today timestamp format py ↔
      ∀ piece ∈ pieces format timestamp, Readable (tokens format.toList) piece := by
  obtain ⟨dated, ds, zone, hentry⟩ := exists_entry hformat
  obtain ⟨texts, offset, htimestamp, htakes, hoffset, hpieces, hdate, hhour, htime, htzm⟩ :=
    valid_spec hentry hvalid
  have hreadings : Readings format.toList py.toList dated ds zone texts _ _ :=
    ⟨hentry, htakes, rfl, rfl⟩
  have hsame := hreadings.same_iff hdate hhour
  have hss : Token.ss ∉ zoneTokens zone := by
    cases zone <;> decide
  simp only [hpieces, hentry.tokens_eq, readable_append hss, List.forall_mem_append, ← hsame]
  cases zone with
  | false =>
    cases hoffset
    rw [List.flatten_nil, List.append_nil] at htimestamp
    have hpy : ¬ "%z".toList <:+ py.toList := by simp [hentry.suffix]
    have hparsed : parseTimestampFallbackUtc today timestamp format =
        (utc today false timestamp format, false) :=
      if_neg (mt hentry.mem_Z.mp Bool.false_ne_true)
    rw [readersAgree_naive hpy htimestamp hparsed, htime]
    simp [zoneTokens, offsetOf]
  | true =>
    cases hoffset with
    | cons htake hoffset =>
      cases hoffset
      rw [List.flatten_singleton] at htimestamp
      have hpy : "%z".toList <:+ py.toList := by simp [hentry.suffix]
      have hparsed : parseTimestampFallbackUtc today timestamp format =
          ((utc today false timestamp format).parseZone, true) := if_pos (hentry.mem_Z.mpr rfl)
      have hoffset := (utc today false timestamp format).parseZone_offset
      rw [htzm] at hoffset
      rw [readersAgree_aware hpy htimestamp htake hparsed hoffset htime]
      simp [zoneTokens, Readable]

/-- With milliseconds and an offset. -/
theorem readersAgree_iff_aware :
    ReadersAgree (2016, 1, 1) "2015-02-28T23:59:59.250-05:30" "YYYY-MM-DDTHH:mm:ss.SSSZ"
        "%Y-%m-%dT%H:%M:%S.%f%z" ↔
      ∀ piece ∈ pieces "YYYY-MM-DDTHH:mm:ss.SSSZ" "2015-02-28T23:59:59.250-05:30",
        Readable (tokens "YYYY-MM-DDTHH:mm:ss.SSSZ".toList) piece :=
  readersAgree_iff (by decide +kernel) (by decide +kernel)

/-- Hundredths of a second are read as seconds. -/
theorem hundredths_disagree :
    ("M/D/YY H:mm:SS", "%m/%d/%y %H:%M:%S") ∈ compoundTimestampFormatPyMappings ∧
      (utc (2016, 1, 1) true "1/2/15 3:04:05" "M/D/YY H:mm:SS").isValid ∧
      ¬ ReadersAgree (2016, 1, 1) "1/2/15 3:04:05" "M/D/YY H:mm:SS" "%m/%d/%y %H:%M:%S" := by
  decide +kernel

end Readers
end NumentaApps.Unicorn
