import NumentaApps.NumericLiteral
import NumentaApps.TimestampFormats
import Mathlib.Logic.Function.Basic

/-!
# Parsing with a format of moment.js

The tokens of a format are looked for in a timestamp one after the other, each in what the
one before it has left. In strict mode a numeric token has all of its digits, and a valid
timestamp has all tokens and nothing else.
-/
namespace NumentaApps.Unicorn
open NumericLiteral (digitsValue)

namespace Moment

/-- The tokens of the formats of the table. -/
inductive Token where
  | YYYY
  | YY
  | MM
  | M
  | DD
  | D
  | HH
  | H
  | hh
  | mm
  | ss
  | S (digits : ℕ)
  | A
  | Z
  | literal (c : Char)
  deriving DecidableEq, Repr

/-- The longest tokens that a format is made of. -/
def tokens : List Char → List Token
  | 'Y' :: 'Y' :: 'Y' :: 'Y' :: cs => .YYYY :: tokens cs
  | 'Y' :: 'Y' :: cs => .YY :: tokens cs
  | 'M' :: 'M' :: cs => .MM :: tokens cs
  | 'M' :: cs => .M :: tokens cs
  | 'D' :: 'D' :: cs => .DD :: tokens cs
  | 'D' :: cs => .D :: tokens cs
  | 'H' :: 'H' :: cs => .HH :: tokens cs
  | 'H' :: cs => .H :: tokens cs
  | 'h' :: 'h' :: cs => .hh :: tokens cs
  | 'm' :: 'm' :: cs => .mm :: tokens cs
  | 's' :: 's' :: cs => .ss :: tokens cs
  | 'S' :: 'S' :: 'S' :: cs => .S 3 :: tokens cs
  | 'S' :: 'S' :: cs => .S 2 :: tokens cs
  | 'S' :: cs => .S 1 :: tokens cs
  | 'A' :: cs => .A :: tokens cs
  | 'Z' :: cs => .Z :: tokens cs
  | c :: cs => .literal c :: tokens cs
  | [] => []

/-! ## The text of a token -/

def matchDigits (least most : ℕ) (cs : List Char) : Option (List Char × List Char) :=
  let text := (cs.take most).takeWhile Char.isDigit
  if least ≤ text.length then some (text, cs.drop text.length) else none

/-- An optional character. -/
def matchOptional (p : Char → Bool) (cs : List Char) : List Char × List Char :=
  match cs with
  | c :: rest => if p c then ([c], rest) else ([], cs)
  | [] => ([], [])

/-- The meridiem of the English locale, which may be shortened and have dots. -/
def matchMeridiem : List Char → Option (List Char × List Char)
  | [] => none
  | c :: cs =>
    if c.toLower ∈ ['a', 'p'] then
      let dot := matchOptional (· = '.') cs
      let m := matchOptional (fun c => c.toLower = 'm') dot.2
      let dot' := matchOptional (· = '.') m.2
      some (c :: (dot.1 ++ m.1 ++ dot'.1), dot'.2)
    else none

/-- A UTC offset: a "Z", or a sign and hours with minutes or without. -/
def matchShortOffset : List Char → Option (List Char × List Char)
  | [] => none
  | c :: cs =>
    if c.toLower = 'z' then some ([c], cs)
    else if c = '+' ∨ c = '-' then
      (matchDigits 2 2 cs).map fun hours =>
        let colon := matchOptional (· = ':') hours.2
        match matchDigits 2 2 colon.2 with
        | some minutes => (c :: (hours.1 ++ colon.1 ++ minutes.1), minutes.2)
        | none => (c :: hours.1, hours.2)
    else none

def matchLiteral (c : Char) : List Char → Option (List Char × List Char)
  | [] => none
  | d :: cs => if d = c then some ([d], cs) else none

/-- What a token takes at the beginning of a text, and what it leaves. -/
def Token.matchToken (strict : Bool) : Token → List Char → Option (List Char × List Char)
  | .YYYY => matchDigits (if strict then 4 else 1) 4
  | .M | .D | .H => matchDigits 1 2
  | .YY | .MM | .DD | .HH | .hh | .mm | .ss => matchDigits (if strict then 2 else 1) 2
  | .S digits => if strict then matchDigits digits digits else matchDigits 1 3
  | .A => matchMeridiem
  | .Z => matchShortOffset
  | .literal c => matchLiteral c

/-- The first place at which a token is found: what is skipped, its text and what is left. -/
def search (find : List Char → Option (List Char × List Char)) (cs : List Char) :
    Option (List Char × List Char × List Char) :=
  match find cs with
  | some found => some ([], found)
  | none =>
    match cs with
    | [] => none
    | c :: cs => (search find cs).map fun found => (c :: found.1, found.2)

/-- The texts of the tokens that are found, and the characters that are left over. -/
def scan (strict : Bool) : List Token → List Char → List (Token × Option (List Char)) × List Char
  | [], cs => ([], cs)
  | token :: tokens, cs =>
    match search (token.matchToken strict) cs with
    | none =>
      let scanned := scan strict tokens cs
      ((token, none) :: scanned.1, scanned.2)
    | some (skipped, text, rest) =>
      let scanned := scan strict tokens rest
      ((token, some text) :: scanned.1, skipped ++ scanned.2)

/-! ## The parts of a date -/

/-- The places of the array that the tokens are added to. -/
inductive Place where
  | YEAR
  | MONTH
  | DATE
  | HOUR
  | MINUTE
  | SECOND
  | MILLISECOND
  deriving DecidableEq

structure Config where
  a : Place → Option ℕ
  meridiem : Option (List Char)
  bigHour : Bool
  tzm : Option ℤ

def Config.empty : Config := ⟨fun _ => none, none, false, none⟩

def parseTwoDigitYear (text : List Char) : ℕ :=
  digitsValue text + (if 68 < digitsValue text then 1900 else 2000)

/-- The sign, the hours and the minutes of an offset that is not a "Z". -/
def offsetParts : List Char → Option (Bool × ℕ × ℕ)
  | [sign, h, h'] => some (sign = '+', digitsValue [h, h'], 0)
  | [sign, h, h', m, m'] => some (sign = '+', digitsValue [h, h'], digitsValue [m, m'])
  | [sign, h, h', _, m, m'] => some (sign = '+', digitsValue [h, h'], digitsValue [m, m'])
  | _ => none

/-- The minutes of an offset. -/
def offsetFromString (text : List Char) : ℤ :=
  match offsetParts text with
  | some (positive, hours, minutes) =>
    if positive then 60 * hours + minutes else -(60 * hours + minutes)
  | none => 0

/-- Months count from one here. -/
def Token.place : Token → Option Place
  | .YYYY | .YY => some .YEAR
  | .MM | .M => some .MONTH
  | .DD | .D => some .DATE
  | .HH | .H | .hh => some .HOUR
  | .mm => some .MINUTE
  | .ss => some .SECOND
  | .S _ => some .MILLISECOND
  | .A | .Z | .literal _ => none

/-- The number of a text; of a fraction of a second it is the milliseconds. -/
def Token.number (token : Token) (text : List Char) : ℕ :=
  match token with
  | .YYYY => if text.length = 2 then parseTwoDigitYear text else digitsValue text
  | .YY => parseTwoDigitYear text
  | .S _ => digitsValue text * 10 ^ (3 - text.length)
  | _ => digitsValue text

/-- `addTimeToArrayFromToken`. -/
def Config.add (config : Config) (token : Token) (text : List Char) : Config where
  a := match token.place with
    | some place => Function.update config.a place (some (token.number text))
    | none => config.a
  meridiem := if token = .A then some text else config.meridiem
  bigHour := config.bigHour || token = .hh
  tzm := if token = .Z then some (offsetFromString text) else config.tzm

def Config.ofScanned (scanned : List (Token × Option (List Char))) : Config :=
  scanned.foldl (fun config found => match found.2 with
    | some text => config.add found.1 text
    | none => config) .empty

def isPM (text : List Char) : Bool := text.head?.any fun c => c.toLower = 'p'

def meridiemFixWrap (hour : ℕ) (meridiem : Option (List Char)) : ℕ :=
  match meridiem with
  | none => hour
  | some text =>
    if isPM text && hour < 12 then hour + 12
    else if !isPM text && hour = 12 then 0
    else hour

/-- The days of a month are those of a JavaScript date, which takes the years before 100 for
years from 1900 on. -/
def monthDays (year month : ℕ) : ℕ := daysInMonth (if year < 100 then 1900 + year else year) month

namespace Config
variable (config : Config)

/-- Without a year the date is today's, up to the first part that is given. -/
def year (today : ℕ × ℕ × ℕ) : ℕ := (config.a .YEAR).getD today.1

def month (today : ℕ × ℕ × ℕ) : ℕ :=
  (config.a .MONTH).getD (if (config.a .YEAR).isSome then 1 else today.2.1)

def day (today : ℕ × ℕ × ℕ) : ℕ :=
  (config.a .DATE).getD
    (if (config.a .YEAR).isSome ∨ (config.a .MONTH).isSome then 1 else today.2.2)

def hour : ℕ := meridiemFixWrap ((config.a .HOUR).getD 0) config.meridiem

def minute : ℕ := (config.a .MINUTE).getD 0

def second : ℕ := (config.a .SECOND).getD 0

def millisecond : ℕ := (config.a .MILLISECOND).getD 0

/-- An hour of twelve is from one to twelve. -/
def IsHour : Prop :=
  config.bigHour → (config.a .HOUR).any fun hour => 1 ≤ hour ∧ hour ≤ 12

instance : Decidable config.IsHour := inferInstanceAs (Decidable (_ → _))

/-- No part of the date overflows. An hour of twenty-four is the end of the day. -/
def IsDate (today : ℕ × ℕ × ℕ) : Prop :=
  (1 ≤ config.month today ∧ config.month today ≤ 12) ∧
    (1 ≤ config.day today ∧ config.day today ≤ monthDays (config.year today) (config.month today)) ∧
    (config.hour ≤ 24 ∧
      (config.hour = 24 → config.minute = 0 ∧ config.second = 0 ∧ config.millisecond = 0)) ∧
    config.minute ≤ 59 ∧ config.second ≤ 59 ∧ config.millisecond ≤ 999

instance (today : ℕ × ℕ × ℕ) : Decidable (config.IsDate today) :=
  inferInstanceAs (Decidable (_ ∧ _))

/-- The milliseconds since the epoch, in the time of the timestamp. -/
def localTime (today : ℕ × ℕ × ℕ) : ℤ :=
  ((dayNumber (config.year today) (config.month today) (config.day today) : ℤ) - epochDay) *
    86400000 +
    (((config.hour * 60 + config.minute) * 60 + config.second) * 1000 + config.millisecond : ℕ)

end Config
end Moment

/-- A parsed moment: its milliseconds since the epoch, the minutes of the offset that its text had,
and those of the one that it is shown with. -/
structure Moment where
  isValid : Bool
  time : ℤ
  tzm : Option ℤ
  offset : ℤ

namespace Moment

/-- `moment.utc` of a timestamp and a format, on a day. -/
def utc (today : ℕ × ℕ × ℕ) (strict : Bool) (timestamp format : String) : Moment :=
  let scanned := scan strict (tokens format.toList) timestamp.toList
  let config := Config.ofScanned scanned.1
  let empty := scanned.1.all fun found => found.2.isNone ∨ found.1 matches .literal _
  { isValid := !empty && config.IsDate today &&
      (!strict || (scanned.2 = [] && (scanned.1.all fun found => found.2.isSome) && config.IsHour))
    time := config.localTime today - config.tzm.getD 0 * 60000
    tzm := config.tzm
    offset := 0 }

/-- Numbers below sixteen are taken for hours. -/
def utcOffset (input : ℤ) (m : Moment) : Moment :=
  { m with offset := if input.natAbs < 16 then input * 60 else input }

/-- `setOffsetToParsedOffset`. A zero is searched for once more in the text, and is a zero again. -/
def parseZone (m : Moment) : Moment := m.utcOffset (m.tzm.getD 0)

theorem parseZone_offset (m : Moment) : m.parseZone.offset =
    if (m.tzm.getD 0).natAbs < 16 then m.tzm.getD 0 * 60 else m.tzm.getD 0 := rfl

end Moment

/-- The moment of a timestamp, and whether it has a time zone. -/
def parseTimestampFallbackUtc (today : ℕ × ℕ × ℕ) (timestamp format : String) : Moment × Bool :=
  let m := Moment.utc today false timestamp format
  if 'Z' ∈ format.toList then (m.parseZone, true) else (m, false)

end NumentaApps.Unicorn
