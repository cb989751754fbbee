import NumentaApps.NumericLiteral
import NumentaApps.OrderedChoice
import NumentaApps.TimestampFormats

/-!
# Parsing with a format of `datetime.strptime`

A format is a regular expression with a group for each directive. The back end takes a UTC
offset from the end of a timestamp first, since `strptime` has no directive for it.
-/
namespace NumentaApps.Unicorn
open NumericLiteral (digitsValue isPySpace)
open OrderedChoice (CharClass Group matchPrefix)

namespace Strptime

inductive Directive where
  | Y
  | y
  | m
  | d
  | H
  | I
  | M
  | S
  | f
  | p
  | space
  | literal (c : Char)
  deriving DecidableEq, Repr

/-- The directives of a format; none where it has a bad one. White space in it is one directive. -/
def directives : List Char → Option (List Directive)
  | [] => some []
  | '%' :: c :: cs =>
    match c with
    | 'Y' => (directives cs).map (.Y :: ·)
    | 'y' => (directives cs).map (.y :: ·)
    | 'm' => (directives cs).map (.m :: ·)
    | 'd' => (directives cs).map (.d :: ·)
    | 'H' => (directives cs).map (.H :: ·)
    | 'I' => (directives cs).map (.I :: ·)
    | 'M' => (directives cs).map (.M :: ·)
    | 'S' => (directives cs).map (.S :: ·)
    | 'f' => (directives cs).map (.f :: ·)
    | 'p' => (directives cs).map (.p :: ·)
    | _ => none
  | c :: cs =>
    if isPySpace c then
      (directives cs).map fun ds => if ds.head? = some .space then ds else .space :: ds
    else (directives cs).map (.literal c :: ·)

def range (first last : Char) : CharClass := fun c => first ≤ c && c ≤ last

/-- A character in either case. -/
def ignoreCase (c : Char) : CharClass := fun d => d.toLower = c.toLower

/-- The regular expressions of `_strptime.TimeRE`. -/
def Directive.group : Directive → Group
  | .Y => .alternatives [[Char.isDigit, Char.isDigit, Char.isDigit, Char.isDigit]]
  | .y => .alternatives [[Char.isDigit, Char.isDigit]]
  | .m => .alternatives [[(· = '1'), range '0' '2'], [(· = '0'), range '1' '9'], [range '1' '9']]
  | .d => .alternatives [[(· = '3'), range '0' '1'], [range '1' '2', Char.isDigit],
      [(· = '0'), range '1' '9'], [range '1' '9'], [(· = ' '), range '1' '9']]
  | .H => .alternatives [[(· = '2'), range '0' '3'], [range '0' '1', Char.isDigit],
      [Char.isDigit]]
  | .I => .alternatives [[(· = '1'), range '0' '2'], [(· = '0'), range '1' '9'], [range '1' '9']]
  | .M => .alternatives [[range '0' '5', Char.isDigit], [Char.isDigit]]
  | .S => .alternatives [[(· = '6'), range '0' '1'], [range '0' '5', Char.isDigit],
      [Char.isDigit]]
  | .f => .alternatives ([6, 5, 4, 3, 2, 1].map fun n => List.replicate n Char.isDigit)
  | .p => .alternatives [[ignoreCase 'a', ignoreCase 'm'], [ignoreCase 'p', ignoreCase 'm']]
  | .space => .run isPySpace
  | .literal c => .alternatives [[ignoreCase c]]

/-- The variables that the groups of a match are assigned to. -/
inductive Variable where
  | year
  | month
  | day
  | hour
  | minute
  | second
  | microsecond
  deriving DecidableEq

structure Found where
  value : Variable → Option ℕ
  twelve : Bool
  ampm : List Char

def Found.empty : Found := ⟨fun _ => none, false, []⟩

def Directive.assigns : Directive → Option Variable
  | .Y | .y => some .year
  | .m => some .month
  | .d => some .day
  | .H | .I => some .hour
  | .M => some .minute
  | .S => some .second
  | .f => some .microsecond
  | .p | .space | .literal _ => none

def Directive.number (directive : Directive) (text : List Char) : ℕ :=
  match directive with
  | .y => digitsValue text + (if digitsValue text ≤ 68 then 2000 else 1900)
  | .f => digitsValue text * 10 ^ (6 - text.length)
  | _ => digitsValue text

/-- What a group of the match assigns. The hour of twelve is adjusted when all are known. -/
def Found.add (found : Found) (directive : Directive) (text : List Char) : Found where
  value := match directive.assigns with
    | some v => Function.update found.value v (some (directive.number text))
    | none => found.value
  twelve := if directive = .I then true else if directive = .H then false else found.twelve
  ampm := if directive = .p then text.map Char.toLower else found.ampm

/-- The hour, of which the twelfth is the first. -/
def Found.hour (found : Found) : ℕ :=
  let hour := (found.value .hour).getD 0
  if found.twelve then
    if found.ampm = [] ∨ found.ampm = ['a', 'm'] then (if hour = 12 then 0 else hour)
    else if found.ampm = ['p', 'm'] then (if hour = 12 then hour else hour + 12)
    else hour
  else hour

end Strptime

/-- A `datetime`, with the seconds of its offset if it is not naive. -/
structure DateTime where
  year : ℕ
  month : ℕ
  day : ℕ
  hour : ℕ
  minute : ℕ
  second : ℕ
  microsecond : ℕ
  utcoffset : Option ℤ
  deriving DecidableEq, Repr

namespace DateTime

/-- What the constructor does not raise for. -/
def IsDate (t : DateTime) : Prop :=
  (1 ≤ t.year ∧ t.year ≤ 9999) ∧ (1 ≤ t.month ∧ t.month ≤ 12) ∧
    (1 ≤ t.day ∧ t.day ≤ daysInMonth t.year t.month) ∧ t.hour ≤ 23 ∧ t.minute ≤ 59 ∧
    t.second ≤ 59 ∧ t.microsecond ≤ 999999

instance (t : DateTime) : Decidable t.IsDate := inferInstanceAs (Decidable (_ ∧ _))

/-- The microseconds since the epoch, in the time of the timestamp. -/
def localTime (t : DateTime) : ℤ :=
  (((dayNumber t.year t.month t.day : ℤ) - epochDay) * 86400 +
    ((t.hour * 60 + t.minute) * 60 + t.second : ℕ)) * 1000000 + t.microsecond

def time (t : DateTime) : ℤ := t.localTime - t.utcoffset.getD 0 * 1000000

/-- `isoformat` asks for an offset of less than a day. -/
def isoformatRaises (t : DateTime) : Bool :=
  t.utcoffset.any fun offset => offset ≤ -86400 ∨ 86400 ≤ offset

end DateTime

namespace Strptime

def Found.toDateTime (found : Found) : DateTime where
  year := (found.value .year).getD 1900
  month := (found.value .month).getD 1
  day := (found.value .day).getD 1
  hour := found.hour
  minute := (found.value .minute).getD 0
  second := (found.value .second).getD 0
  microsecond := (found.value .microsecond).getD 0
  utcoffset := none

def Found.ofGroups (groups : List (Directive × List Char)) : Found :=
  groups.foldl (fun found g => found.add g.1 g.2) .empty

/-- `datetime.strptime`; none where it raises, also at what it does not convert. -/
def strptime (timestamp format : List Char) : Option DateTime := do
  let ds ← directives format
  let (groups, unconverted) ← matchPrefix Directive.group ds timestamp
  if unconverted = [] ∧ (Found.ofGroups groups).toDateTime.IsDate then
    some (Found.ofGroups groups).toDateTime
  else none

end Strptime

/-! ## The offset at the end of a timestamp -/

/-- The end of a text as the dollar of a regular expression takes it, read backwards. -/
def reversedEnd (cs : List Char) : List Char :=
  match cs.reverse with
  | '\n' :: rest => rest
  | reversed => reversed

def isSign (c : Char) : Bool := c = '+' || c = '-'

/-- A match at the end: the text before it, the sign, the hours and the minutes. -/
abbrev OffsetMatch := List Char × Char × List Char × List Char

def basicHHMMUtcOffset (cs : List Char) : Option OffsetMatch :=
  match reversedEnd cs with
  | m' :: m :: h' :: h :: sign :: before =>
    if m'.isDigit ∧ m.isDigit ∧ h'.isDigit ∧ h.isDigit ∧ isSign sign then
      some (before.reverse, sign, [h, h'], [m, m'])
    else none
  | _ => none

def extendedHHMMUtcOffset (cs : List Char) : Option OffsetMatch :=
  match reversedEnd cs with
  | m' :: m :: colon :: h' :: h :: sign :: before =>
    if m'.isDigit ∧ m.isDigit ∧ colon = ':' ∧ h'.isDigit ∧ h.isDigit ∧ isSign sign then
      some (before.reverse, sign, [h, h'], [m, m'])
    else none
  | _ => none

def onlyHHUtcOffset (cs : List Char) : Option OffsetMatch :=
  match reversedEnd cs with
  | h' :: h :: sign :: before =>
    if h'.isDigit ∧ h.isDigit ∧ isSign sign then some (before.reverse, sign, [h, h'], ['0', '0'])
    else none
  | _ => none

def maxUtcOffsetInSeconds : ℕ := (24 * 60 + 59) * 60

/-- The text before an offset, and the offset in seconds; none where it is refused. -/
def stripUtcOffset (cs : List Char) : Option (List Char × ℤ) :=
  if cs.getLast? = some 'Z' then some (cs.dropLast, 0)
  else do
    let (before, sign, hours, minutes) ←
      (basicHHMMUtcOffset cs).or ((extendedHHMMUtcOffset cs).or (onlyHHUtcOffset cs))
    let offset := (digitsValue hours * 60 + digitsValue minutes) * 60
    if 59 < digitsValue minutes ∨ maxUtcOffsetInSeconds < offset then none
    else some (before, if sign = '-' then -offset else offset)

/-- `parseDatetime` of the formats other than Unix timestamps; none where it raises. -/
def parseDatetime (dateString dateFormat : String) : Option DateTime :=
  if "%z".toList <:+ dateFormat.toList then do
    let (before, offset) ← stripUtcOffset dateString.toList
    let result ← Strptime.strptime before dateFormat.toList.dropLast.dropLast
    some { result with utcoffset := some offset }
  else Strptime.strptime dateString.toList dateFormat.toList

end NumentaApps.Unicorn
