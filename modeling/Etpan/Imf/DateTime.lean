import Etpan.Data.Decimal
import Etpan.Imf.Address
import Etpan.Imf.Word
import Etpan.Thread.Subject

namespace Etpan.Imf

open Etpan.Data Etpan.Mime Etpan.Thread

/-! Dates: `mailimf_date_time_parse` of `low-level/imf/mailimf.c` and
`mailimf_date_time_write_driver` of `low-level/imf/mailimf_write_generic.c`. -/

structure MailimfDateTime where
  dtDay : Int
  dtMonth : Int
  dtYear : Int
  dtHour : Int
  dtMin : Int
  dtSec : Int
  dtZone : Int
deriving Repr, DecidableEq

/-- A number as `%i` of `printf` writes it, with the flag for the sign and the width up to which zeros are put. -/
def intText (plus : Bool) (width : Nat) (number : Int) : List UInt8 :=
  let sign := if number < 0 then [ascii '-'] else if plus then [ascii '+'] else []
  let digits := decimal number.natAbs
  sign ++ List.replicate (width - (sign.length + digits.length)) (ascii '0') ++ digits

def dayofweekOffset : List Int := [0, 3, 2, 5, 0, 3, 5, 1, 4, 6, 2, 4]

def dayofweek (year month day : Int) : Int :=
  let year := year - (if month < 3 then 1 else 0)
  (year + year.tdiv 4 - year.tdiv 100 + year.tdiv 400 + dayofweekOffset.getD (month - 1).toNat 0 + day).tmod 7

def weekOfDayStr : List (List UInt8) :=
  [asciiText "Sun", asciiText "Mon", asciiText "Tue", asciiText "Wed", asciiText "Thu", asciiText "Fri", asciiText "Sat"]

def monthStr : List (List UInt8) :=
  [asciiText "Jan", asciiText "Feb", asciiText "Mar", asciiText "Apr", asciiText "May", asciiText "Jun", asciiText "Jul",
    asciiText "Aug", asciiText "Sep", asciiText "Oct", asciiText "Nov", asciiText "Dec"]

/-- `date_str` with a text in the place of the zone. -/
def dateStrWith (dateTime : MailimfDateTime) (zone : List UInt8) : List UInt8 :=
  let wday := dayofweek dateTime.dtYear dateTime.dtMonth dateTime.dtDay
  weekOfDayStr.getD wday.toNat [] ++ ascii ',' :: ascii ' ' :: (intText false 0 dateTime.dtDay ++
    ascii ' ' :: (monthStr.getD (dateTime.dtMonth - 1).toNat [] ++ ascii ' ' :: (intText false 0 dateTime.dtYear ++
    ascii ' ' :: (intText false 2 dateTime.dtHour ++ ascii ':' :: (intText false 2 dateTime.dtMin ++
    ascii ':' :: (intText false 2 dateTime.dtSec ++ ascii ' ' :: zone))))))

def dateStr (dateTime : MailimfDateTime) : List UInt8 := dateStrWith dateTime (intText true 5 dateTime.dtZone)

def mailimfDateTimeWriteDriver (out : Written) (dateTime : MailimfDateTime) : Written := writeString out (dateStr dateTime)

/-- A `uint32_t` that is stored in an `int`. -/
def cInt (number : UInt32) : Int := number.toInt32.toInt

/-- A number that does not fit is reduced. -/
def mailimfNumberParse (text : List UInt8) : Option (UInt32 × List UInt8) :=
  let digits := text.takeWhile isDigit
  if digits = [] then none
  else some (digits.foldl (fun number digit => number * 10 + UInt32.ofNat (digit.toNat - 48)) 0, text.dropWhile isDigit)

def cfwsNumberParse (text : List UInt8) : Option (Int × List UInt8) :=
  (mailimfNumberParse (skipCfws text)).map fun (number, rest) => (cInt number, rest)

/-- `day_names` and `month_names`: the values count from 1. -/
def dayNames : List (List UInt8) :=
  [asciiText "Mon", asciiText "Tue", asciiText "Wed", asciiText "Thu", asciiText "Fri", asciiText "Sat", asciiText "Sun"]

def monthNames : List (List UInt8) := monthStr

def guessDayName (text : List UInt8) : Option Nat :=
  let first := text.head?.map toupper
  let second := text.tail.head?.map toupper
  if first = some (ascii 'M') then some 1
  else if first = some (ascii 'T') then
    if second = some (ascii 'U') then some 2 else if second = some (ascii 'H') then some 4 else none
  else if first = some (ascii 'W') then some 3
  else if first = some (ascii 'F') then some 5
  else if first = some (ascii 'S') then
    if second = some (ascii 'A') then some 6 else if second = some (ascii 'U') then some 7 else none
  else none

def guessMonth (text : List UInt8) : Option Nat :=
  let first := text.head?.map toupper
  let second := text.tail.head?.map toupper
  let third := text.tail.tail.head?.map toupper
  if first = some (ascii 'J') then
    if second = some (ascii 'A') then some 1
    else if second = some (ascii 'U') then
      if third = some (ascii 'N') then some 6 else if third = some (ascii 'L') then some 7 else none
    else none
  else if first = some (ascii 'F') then some 2
  else if first = some (ascii 'M') then
    if second = some (ascii 'A') then
      if third = some (ascii 'Y') then some 5 else if third = some (ascii 'R') then some 3 else none
    else none
  else if first = some (ascii 'A') then
    if second = some (ascii 'P') then some 4 else if second = some (ascii 'U') then some 8 else none
  else if first = some (ascii 'S') then some 9
  else if first = some (ascii 'O') then some 10
  else if first = some (ascii 'N') then some 11
  else if first = some (ascii 'D') then some 12
  else none

/-- `mailimf_day_name_parse` and `mailimf_month_name_parse`. -/
def nameParse (guess : List UInt8 → Option Nat) (names : List (List UInt8)) (text : List UInt8) : Option (Nat × List UInt8) :=
  (guess text).bind fun value => (mailimfTokenCaseInsensitiveParse (names.getD (value - 1) []) text).map fun rest => (value, rest)

def mailimfDayNameParse : List UInt8 → Option (Nat × List UInt8) := nameParse guessDayName dayNames

def mailimfMonthNameParse : List UInt8 → Option (Nat × List UInt8) := nameParse guessMonth monthNames

def mailimfDayOfWeekParse (text : List UInt8) : Option (Nat × List UInt8) := mailimfDayNameParse (skipCfws text)

def mailimfDayParse : List UInt8 → Option (Int × List UInt8) := cfwsNumberParse

def mailimfMonthParse (text : List UInt8) : Option (Int × List UInt8) :=
  (mailimfMonthNameParse (skipCfws text)).map fun (month, rest) => (Int.ofNat month, rest)

def mailimfYearParse : List UInt8 → Option (Int × List UInt8) := cfwsNumberParse

def mailimfDateParse (text : List UInt8) : Option ((Int × Int × Int) × List UInt8) := do
  let (day, text) ← mailimfDayParse text
  let (month, text) ← mailimfMonthParse text
  let (year, text) ← mailimfYearParse text
  some ((day, month, year), text)

def mailimfBrokenDateParse (text : List UInt8) : Option ((Int × Int × Int) × List UInt8) := do
  let (month, text) ← mailimfMonthParse text
  let (day, text) ← mailimfDayParse text
  let (year, text) ← mailimfYearParse text
  some ((day, month, year), text)

/-- `mailimf_hour_parse`, `mailimf_minute_parse` and `mailimf_second_parse`. -/
def timeNumberParse (text : List UInt8) : Option (Int × List UInt8) :=
  (mailimfNumberParse text).map fun (number, rest) => (cInt number, rest)

def mailimfTimeOfDayParse (text : List UInt8) : Option ((Int × Int × Int) × List UInt8) := do
  let (hour, text) ← timeNumberParse text
  let text ← mailimfColonParse text
  let (min, text) ← timeNumberParse text
  match mailimfColonParse text with
  | some text =>
      let (sec, text) ← timeNumberParse text
      some ((hour, min, sec), text)
  | none => some ((hour, min, 0), text)

/-- How the automaton for the names of zones is left. -/
inductive ZoneState where
  | ok (zone : Int) (rest : List UInt8)
  | err
  | cont (text : List UInt8)
deriving Repr, DecidableEq

/-- STATE_ZONE_2 and STATE_ZONE_3. -/
def standardZone (zone : Int) (second third : UInt8) (rest : List UInt8) : ZoneState :=
  if second = ascii 'S' then if third = ascii 'T' then .ok (zone * 100) rest else .err
  else if second = ascii 'D' then if third = ascii 'T' then .ok ((zone + 1) * 100) rest else .err
  else .err

/-- The automaton reads only where three octets are left. -/
def zoneAutomaton : List UInt8 → ZoneState
  | first :: second :: third :: rest =>
      if first = ascii 'G' then
        if second = ascii 'M' ∧ third = ascii 'T' then
          if rest.head? = some (ascii '+') ∨ rest.head? = some (ascii '-') then .cont rest else .ok 0 rest
        else .err
      else if first = ascii 'E' then standardZone (-5) second third rest
      else if first = ascii 'C' then standardZone (-6) second third rest
      else if first = ascii 'M' then standardZone (-7) second third rest
      else if first = ascii 'P' then standardZone (-8) second third rest
      else .cont (first :: second :: third :: rest)
  | text => .cont text

/-- The sign, as a `uint32_t` is multiplied with it, and the number. -/
def zoneNumberParse (text : List UInt8) : Option (Int × List UInt8) :=
  let (sign, text) : UInt32 × List UInt8 :=
    match mailimfPlusParse text with
    | some text => (1, text)
    | none =>
        match mailimfMinusParse text with
        | some text => (-1, text)
        | none => (1, text)
  (mailimfNumberParse text).map fun (value, rest) => (cInt (value * sign), rest)

def mailimfZoneParse (text : List UInt8) : Option (Int × List UInt8) :=
  if text.take 2 = asciiText "UT" then some (1, text.drop 2)
  else
    match zoneAutomaton text with
    | .ok zone rest => some (zone, rest)
    | .err => none
    | .cont text => zoneNumberParse text

/-- The hour, the minute, the second and the zone, which is 0 where there is none. -/
def mailimfTimeParse (text : List UInt8) : Option ((Int × Int × Int × Int) × List UInt8) := do
  let ((hour, min, sec), text) ← mailimfTimeOfDayParse (skipCfws text)
  let text := skipFws text
  let (zone, text) := (mailimfZoneParse text).getD (0, text)
  some ((hour, min, sec, zone), text)

/-- Where neither order of the date can be read, its numbers are 0. -/
def mailimfDateTimeParse (text : List UInt8) : Option (MailimfDateTime × List UInt8) := do
  let text :=
    match mailimfDayOfWeekParse text with
    | some (_, text) => (mailimfCommaParse text).getD text
    | none => text
  let ((day, month, year), text) :=
    match mailimfDateParse text with
    | some found => found
    | none => (mailimfBrokenDateParse text).getD ((0, 0, 0), text)
  let text ← mailimfFwsParse text
  let ((hour, min, sec, zone), text) ← mailimfTimeParse text
  some ({ dtDay := day, dtMonth := month, dtYear := year, dtHour := hour, dtMin := min, dtSec := sec, dtZone := zone }, text)

end Etpan.Imf
