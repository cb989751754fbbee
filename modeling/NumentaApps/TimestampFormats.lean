import Mathlib.Algebra.GroupWithZero.Nat
import Mathlib.Data.List.Basic

/-!
# The table of timestamp formats

Each moment.js format that the front end recognises, with the `datetime.strptime` format
that the back end is given for it.
-/
namespace NumentaApps.Unicorn

/-- "ISO 8601". -/
def iso8601 : List (String × String) :=
  [("YYYY-MM-DDTHH:mm:ss.SSSZ", "%Y-%m-%dT%H:%M:%S.%f%z"),
    ("YYYY-MM-DDTHH:mm:ss.SSZ", "%Y-%m-%dT%H:%M:%S.%f%z"),
    ("YYYY-MM-DDTHH:mm:ss.SZ", "%Y-%m-%dT%H:%M:%S.%f%z"),
    ("YYYY-MM-DDTHH:mm:ss.SSS", "%Y-%m-%dT%H:%M:%S.%f"),
    ("YYYY-MM-DDTHH:mm:ss.SS", "%Y-%m-%dT%H:%M:%S.%f"),
    ("YYYY-MM-DDTHH:mm:ss.S", "%Y-%m-%dT%H:%M:%S.%f"),
    ("YYYY-MM-DDTHH:mm:ssZ", "%Y-%m-%dT%H:%M:%S%z"), ("YYYY-MM-DDTHH:mm:ss", "%Y-%m-%dT%H:%M:%S"),
    ("YYYY-MM-DDTHH:mmZ", "%Y-%m-%dT%H:%M%z"), ("YYYY-MM-DDTHH:mm", "%Y-%m-%dT%H:%M"),
    ("YYYY-MM-DDTHHZ", "%Y-%m-%dT%H%z"), ("YYYY-MM-DDTHH", "%Y-%m-%dT%H")]

/-- "Variation of ISO 8601". -/
def iso8601Variation : List (String × String) :=
  [("YYYY/MM/DDTHH:mm:ss.SSSZ", "%Y/%m/%dT%H:%M:%S.%f%z"),
    ("YYYY/MM/DDTHH:mm:ss.SSZ", "%Y/%m/%dT%H:%M:%S.%f%z"),
    ("YYYY/MM/DDTHH:mm:ss.SZ", "%Y/%m/%dT%H:%M:%S.%f%z"),
    ("YYYY/MM/DDTHH:mm:ss.SSS", "%Y/%m/%dT%H:%M:%S.%f"),
    ("YYYY/MM/DDTHH:mm:ss.SS", "%Y/%m/%dT%H:%M:%S.%f"),
    ("YYYY/MM/DDTHH:mm:ss.S", "%Y/%m/%dT%H:%M:%S.%f"),
    ("YYYY/MM/DDTHH:mm:ssZ", "%Y/%m/%dT%H:%M:%S%z"), ("YYYY/MM/DDTHH:mm:ss", "%Y/%m/%dT%H:%M:%S"),
    ("YYYY/MM/DDTHH:mmZ", "%Y/%m/%dT%H:%M%z"), ("YYYY/MM/DDTHH:mm", "%Y/%m/%dT%H:%M"),
    ("YYYY/MM/DDTHHZ", "%Y/%m/%dT%H%z"), ("YYYY/MM/DDTHH", "%Y/%m/%dT%H")]

/-- "ISO 8601 no T". -/
def iso8601NoT : List (String × String) :=
  [("YYYY-MM-DD HH:mm:ss.SSSZ", "%Y-%m-%d %H:%M:%S.%f%z"),
    ("YYYY-MM-DD HH:mm:ss.SSZ", "%Y-%m-%d %H:%M:%S.%f%z"),
    ("YYYY-MM-DD HH:mm:ss.SZ", "%Y-%m-%d %H:%M:%S.%f%z"),
    ("YYYY-MM-DD HH:mm:ss.SSS", "%Y-%m-%d %H:%M:%S.%f"),
    ("YYYY-MM-DD HH:mm:ss.SS", "%Y-%m-%d %H:%M:%S.%f"),
    ("YYYY-MM-DD HH:mm:ss.S", "%Y-%m-%d %H:%M:%S.%f"),
    ("YYYY-MM-DD HH:mm:ssZ", "%Y-%m-%d %H:%M:%S%z"), ("YYYY-MM-DD HH:mm:ss", "%Y-%m-%d %H:%M:%S"),
    ("YYYY-MM-DD HH:mmZ", "%Y-%m-%d %H:%M%z"), ("YYYY-MM-DD HH:mm", "%Y-%m-%d %H:%M"),
    ("YYYY-MM-DD HHZ", "%Y-%m-%d %H%z"), ("YYYY-MM-DD HH", "%Y-%m-%d %H"),
    ("YYYY-MM-DD", "%Y-%m-%d")]

/-- "Variation of ISO 8601 no T". -/
def iso8601VariationNoT : List (String × String) :=
  [("YYYY/MM/DD HH:mm:ss.SSSZ", "%Y/%m/%d %H:%M:%S.%f%z"),
    ("YYYY/MM/DD HH:mm:ss.SSZ", "%Y/%m/%d %H:%M:%S.%f%z"),
    ("YYYY/MM/DD HH:mm:ss.SZ", "%Y/%m/%d %H:%M:%S.%f%z"),
    ("YYYY/MM/DD HH:mm:ss.SSS", "%Y/%m/%d %H:%M:%S.%f"),
    ("YYYY/MM/DD HH:mm:ss.SS", "%Y/%m/%d %H:%M:%S.%f"),
    ("YYYY/MM/DD HH:mm:ss.S", "%Y/%m/%d %H:%M:%S.%f"),
    ("YYYY/MM/DD HH:mm:ssZ", "%Y/%m/%d %H:%M:%S%z"), ("YYYY/MM/DD HH:mm:ss", "%Y/%m/%d %H:%M:%S"),
    ("YYYY/MM/DD HH:mmZ", "%Y/%m/%d %H:%M%z"), ("YYYY/MM/DD HH:mm", "%Y/%m/%d %H:%M"),
    ("YYYY/MM/DD HHZ", "%Y/%m/%d %H%z"), ("YYYY/MM/DD HH", "%Y/%m/%d %H"),
    ("YYYY/MM/DD", "%Y/%m/%d")]

/-- "US Date, 12h AM/PM time". -/
def usDate12h : List (String × String) :=
  [("MM-DD-YYYY hh:mm:ss.SSS A", "%m-%d-%Y %I:%M:%S.%f %p"),
    ("MM-DD-YYYY hh:mm:ss.SS A", "%m-%d-%Y %I:%M:%S.%f %p"),
    ("MM-DD-YYYY hh:mm:ss.S A", "%m-%d-%Y %I:%M:%S.%f %p"),
    ("MM-DD-YYYY hh:mm:ss A", "%m-%d-%Y %I:%M:%S %p"), ("MM-DD-YYYY hh:mm A", "%m-%d-%Y %I:%M %p"),
    ("MM/DD/YYYY hh:mm:ss.SSS A", "%m/%d/%Y %I:%M:%S.%f %p"),
    ("MM/DD/YYYY hh:mm:ss.SS A", "%m/%d/%Y %I:%M:%S.%f %p"),
    ("MM/DD/YYYY hh:mm:ss.S A", "%m/%d/%Y %I:%M:%S.%f %p"),
    ("MM/DD/YYYY hh:mm:ss A", "%m/%d/%Y %I:%M:%S %p"), ("MM/DD/YYYY hh:mm A", "%m/%d/%Y %I:%M %p")]

/-- "US Date, 24h time". -/
def usDate24h : List (String × String) :=
  [("MM-DD-YYYY HH:mm:ss.SSS", "%m-%d-%Y %H:%M:%S.%f"),
    ("MM-DD-YYYY HH:mm:ss.SS", "%m-%d-%Y %H:%M:%S.%f"),
    ("MM-DD-YYYY HH:mm:ss.S", "%m-%d-%Y %H:%M:%S.%f"),
    ("MM-DD-YYYY HH:mm:ss", "%m-%d-%Y %H:%M:%S"), ("MM-DD-YYYY HH:mm", "%m-%d-%Y %H:%M"),
    ("MM/DD/YYYY HH:mm:ss.SSS", "%m/%d/%Y %H:%M:%S.%f"),
    ("MM/DD/YYYY HH:mm:ss.SS", "%m/%d/%Y %H:%M:%S.%f"),
    ("MM/DD/YYYY HH:mm:ss.S", "%m/%d/%Y %H:%M:%S.%f"),
    ("MM/DD/YYYY HH:mm:ss", "%m/%d/%Y %H:%M:%S"), ("MM/DD/YYYY HH:mm", "%m/%d/%Y %H:%M")]

/-- "US Date, no time". -/
def usDateNoTime : List (String × String) :=
  [("MM-DD-YYYY", "%m-%d-%Y"), ("MM-DD-YY", "%m-%d-%y"), ("MM/DD/YYYY", "%m/%d/%Y"),
    ("MM/DD/YY", "%m/%d/%y")]

/-- "US Date, time (excel default on OSX)". -/
def usDateExcelOsx : List (String × String) :=
  [("MM/DD/YY H:mm", "%m/%d/%y %H:%M"), ("MM/DD/YY H:mm:SS", "%m/%d/%y %H:%M:%S"),
    ("MM/DD/YY HH:mm", "%m/%d/%y %H:%M"), ("MM/DD/YY HH:mm:SS", "%m/%d/%y %H:%M:%S"),
    ("MM/DD/YY H", "%m/%d/%y %H"), ("MM/DD/YY HH", "%m/%d/%y %H"),
    ("MM/D/YY H:mm", "%m/%d/%y %H:%M"), ("MM/D/YY H:mm:SS", "%m/%d/%y %H:%M:%S"),
    ("MM/D/YY HH:mm", "%m/%d/%y %H:%M"), ("MM/D/YY HH:mm:SS", "%m/%d/%y %H:%M:%S"),
    ("MM/D/YY H", "%m/%d/%y %H"), ("MM/D/YY HH", "%m/%d/%y %H"), ("MM/D/YY", "%m/%d/%y"),
    ("M/DD/YY H:mm", "%m/%d/%y %H:%M"), ("M/DD/YY H:mm:SS", "%m/%d/%y %H:%M:%S"),
    ("M/DD/YY HH:mm", "%m/%d/%y %H:%M"), ("M/DD/YY HH:mm:SS", "%m/%d/%y %H:%M:%S"),
    ("M/DD/YY H", "%m/%d/%y %H"), ("M/DD/YY HH", "%m/%d/%y %H"), ("M/DD/YY", "%m/%d/%y"),
    ("M/D/YY H:mm", "%m/%d/%y %H:%M"), ("M/D/YY H:mm:SS", "%m/%d/%y %H:%M:%S"),
    ("M/D/YY HH:mm", "%m/%d/%y %H:%M"), ("M/D/YY HH:mm:SS", "%m/%d/%y %H:%M:%S"),
    ("M/D/YY H", "%m/%d/%y %H"), ("M/D/YY HH", "%m/%d/%y %H"), ("M/D/YY", "%m/%d/%y")]

/-- "US Date, time (excel default on Windows)". -/
def usDateExcelWindows : List (String × String) :=
  [("MM/DD/YYYY H:mm", "%m/%d/%Y %H:%M"), ("MM/DD/YYYY H:mm:SS", "%m/%d/%Y %H:%M:%S"),
    ("MM/DD/YYYY HH:mm", "%m/%d/%Y %H:%M"), ("MM/DD/YYYY HH:mm:SS", "%m/%d/%Y %H:%M:%S"),
    ("MM/DD/YYYY H", "%m/%d/%Y %H"), ("MM/DD/YYYY HH", "%m/%d/%Y %H"),
    ("MM/D/YYYY H:mm", "%m/%d/%Y %H:%M"), ("MM/D/YYYY H:mm:SS", "%m/%d/%Y %H:%M:%S"),
    ("MM/D/YYYY HH:mm", "%m/%d/%Y %H:%M"), ("MM/D/YYYY HH:mm:SS", "%m/%d/%Y %H:%M:%S"),
    ("MM/D/YYYY H", "%m/%d/%Y %H"), ("MM/D/YYYY HH", "%m/%d/%Y %H"), ("MM/D/YYYY", "%m/%d/%Y"),
    ("M/DD/YYYY H:mm", "%m/%d/%Y %H:%M"), ("M/DD/YYYY H:mm:SS", "%m/%d/%Y %H:%M:%S"),
    ("M/DD/YYYY HH:mm", "%m/%d/%Y %H:%M"), ("M/DD/YYYY HH:mm:SS", "%m/%d/%Y %H:%M:%S"),
    ("M/DD/YYYY H", "%m/%d/%Y %H"), ("M/DD/YYYY HH", "%m/%d/%Y %H"), ("M/DD/YYYY", "%m/%d/%Y"),
    ("M/D/YYYY H:mm", "%m/%d/%Y %H:%M"), ("M/D/YYYY H:mm:SS", "%m/%d/%Y %H:%M:%S"),
    ("M/D/YYYY HH:mm", "%m/%d/%Y %H:%M"), ("M/D/YYYY HH:mm:SS", "%m/%d/%Y %H:%M:%S"),
    ("M/D/YYYY H", "%m/%d/%Y %H"), ("M/D/YYYY HH", "%m/%d/%Y %H"), ("M/D/YYYY", "%m/%d/%Y")]

def compoundTimestampFormatPyMappings : List (String × String) :=
  iso8601 ++ iso8601Variation ++ iso8601NoT ++
    iso8601VariationNoT ++ usDate12h ++ usDate24h ++
    usDateNoTime ++ usDateExcelOsx ++ usDateExcelWindows

def compoundTimestampFormats : List String := compoundTimestampFormatPyMappings.map Prod.fst

def unixTimestampSecMomentFormat : String := "X"

def unixTimestampMillisecMomentFormat : String := "x"

def unixTimestampSecBackendFormat : String := "#T"

def unixTimestampMillisecBackendFormat : String := "#t"

def allTimestampFormatPyMappings : List (String × String) :=
  compoundTimestampFormatPyMappings ++
    [(unixTimestampSecMomentFormat, unixTimestampSecBackendFormat),
      (unixTimestampMillisecMomentFormat, unixTimestampMillisecBackendFormat)]

/-- The format that the back end is given. -/
def datetimeFormat (format : String) : Option String := allTimestampFormatPyMappings.lookup format

/-! ## The calendar of both libraries -/

def isLeapYear (year : ℕ) : Bool := (year % 4 = 0 && year % 100 ≠ 0) || year % 400 = 0

def daysInMonth (year month : ℕ) : ℕ :=
  if month = 2 then (if isLeapYear year then 29 else 28)
  else if month ∈ [4, 6, 9, 11] then 30 else 31

def daysBeforeMonth (year month : ℕ) : ℕ :=
  ((List.range (month - 1)).map fun m => daysInMonth year (m + 1)).sum

/-- The days from the first of January of the year 0 on. -/
def dayNumber (year month day : ℕ) : ℕ :=
  365 * year + (year + 3) / 4 - (year + 99) / 100 + (year + 399) / 400 +
    daysBeforeMonth year month + (day - 1)

/-- The first of January 1970. -/
def epochDay : ℕ := dayNumber 1970 1 1

end NumentaApps.Unicorn
