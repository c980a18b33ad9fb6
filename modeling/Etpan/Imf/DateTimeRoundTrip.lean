import Etpan.Data.Calendar
import Etpan.Imf.Address
import Etpan.Imf.DateTime

namespace Etpan.Imf

open Etpan.Data Etpan.Mime Etpan.Thread

/-! A date that is written is read back, and the offsets of the names of zones. -/

/-- A date and time of the Gregorian calendar, with a zone of four digits. -/
structure ValidDateTime (dateTime : MailimfDateTime) : Prop where
  year : 1900 ≤ dateTime.dtYear ∧ dateTime.dtYear ≤ 9999
  month : 1 ≤ dateTime.dtMonth ∧ dateTime.dtMonth ≤ 12
  day : 1 ≤ dateTime.dtDay ∧ dateTime.dtDay ≤ monthLength dateTime.dtYear (dateTime.dtMonth - 1).toNat
  hour : 0 ≤ dateTime.dtHour ∧ dateTime.dtHour ≤ 23
  min : 0 ≤ dateTime.dtMin ∧ dateTime.dtMin ≤ 59
  sec : 0 ≤ dateTime.dtSec ∧ dateTime.dtSec ≤ 60
  zone : -1459 ≤ dateTime.dtZone ∧ dateTime.dtZone ≤ 1459

def weekday (dateTime : MailimfDateTime) : Int :=
  ((Date.number { year := dateTime.dtYear, month := (dateTime.dtMonth - 1).toNat, day := dateTime.dtDay.toNat }) + 4) % 7

theorem leapYearsBefore_succ (year : Int) : leapYearsBefore (year + 1) = leapYearsBefore year + if isLeapYear year then 1 else 0 := by
  simp only [leapYearsBefore, isLeapYear, Bool.and_eq_true, Bool.or_eq_true, decide_eq_true_eq]
  split_ifs <;> omega

theorem monthStart_eq (year : Int) {month : Nat} (isMonth : month < 12) :
    monthStart year month = 365 * (year - 1970) + leapYearsBefore (if month < 2 then year else year + 1) - 477 +
      ([0, 31, 59, 90, 120, 151, 181, 212, 243, 273, 304, 334] : List Int).getD month 0 := by
  have february : ((monthLength year 1 : Nat) : Int) = 28 + if isLeapYear year then 1 else 0 := by
    rw [show monthLength year 1 = if isLeapYear year then 29 else 28 from rfl]
    split <;> rfl
  have leap := leapYearsBefore_succ year
  have thirtyOne : monthLength year 0 = 31 ∧ monthLength year 2 = 31 ∧ monthLength year 4 = 31 ∧ monthLength year 6 = 31 ∧
      monthLength year 7 = 31 ∧ monthLength year 9 = 31 := ⟨rfl, rfl, rfl, rfl, rfl, rfl⟩
  have thirty : monthLength year 3 = 30 ∧ monthLength year 5 = 30 ∧ monthLength year 8 = 30 ∧ monthLength year 10 = 30 :=
    ⟨rfl, rfl, rfl, rfl⟩
  obtain ⟨january, march, may, july, august, october⟩ := thirtyOne
  obtain ⟨april, june, september, november⟩ := thirty
  interval_cases month <;> simp [monthStart, yearStart] <;> omega

theorem dayofweek_eq {dateTime : MailimfDateTime} (valid : ValidDateTime dateTime) :
    dayofweek dateTime.dtYear dateTime.dtMonth dateTime.dtDay = weekday dateTime := by
  obtain ⟨day, month, year, hour, min, sec, zone⟩ := dateTime
  obtain ⟨⟨fromYear, toYear⟩, ⟨fromMonth, toMonth⟩, ⟨fromDay, -⟩, -⟩ := valid
  dsimp only at fromYear toYear fromMonth toMonth fromDay ⊢
  have days : ((day.toNat : Nat) : Int) = day := Int.toNat_of_nonneg (by omega)
  rw [dayofweek, weekday, Date.number, days]
  dsimp only
  rw [monthStart_eq year (show (month - 1).toNat < 12 by omega)]
  generalize isShifted : year - (if month < 3 then 1 else 0) = shifted
  have nonneg : 0 ≤ shifted := by
    rw [← isShifted]
    split <;> omega
  rw [Int.tdiv_eq_ediv_of_nonneg nonneg, Int.tdiv_eq_ediv_of_nonneg nonneg, Int.tdiv_eq_ediv_of_nonneg nonneg]
  have offsets : 0 ≤ dayofweekOffset.getD (month - 1).toNat 0 := by
    interval_cases month <;> decide
  rw [Int.tmod_eq_emod_of_nonneg (by omega)]
  subst isShifted
  interval_cases month <;> simp [leapYearsBefore, dayofweekOffset] <;> omega

theorem number_foldl (digits : List UInt8) (value : Nat) :
    digits.foldl (fun number digit => number * 10 + UInt32.ofNat (digit.toNat - 48)) (UInt32.ofNat value) =
      UInt32.ofNat (digits.foldl (fun value digit => value * 10 + (digit.toNat - 48)) value) := by
  induction digits generalizing value with
  | nil => rfl
  | cons digit digits ih =>
      rw [List.foldl_cons, List.foldl_cons, ← ih, UInt32.ofNat_add, UInt32.ofNat_mul]
      rfl

section Number

variable {digits rest : List UInt8} {number : Int}

theorem mailimfNumberParse_digits (areDigits : ∀ digit ∈ digits, isDigit digit = true) (nonempty : digits ≠ [])
    (ends : rest.takeWhile isDigit = []) :
    mailimfNumberParse (digits ++ rest) = some (UInt32.ofNat (decimalValue digits), rest) := by
  have taken : (digits ++ rest).takeWhile isDigit = digits := by
    rw [List.takeWhile_append_of_pos areDigits, ends, List.append_nil]
  have left : (digits ++ rest).dropWhile isDigit = rest := by
    have split := @List.takeWhile_append_dropWhile _ isDigit (digits ++ rest)
    rw [taken] at split
    exact List.append_cancel_left split
  have value := number_foldl digits 0
  rw [mailimfNumberParse, taken, left]
  simp only [if_neg nonempty]
  rw [decimalValue, ← value]
  rfl

theorem cInt_ofNat {value : Nat} (small : value < 2147483648) : cInt (UInt32.ofNat value) = value := by
  rw [cInt, Int32.toInt, UInt32.toBitVec_toInt32, UInt32.toBitVec_ofNat', BitVec.toInt_ofNat', Int.bmod_def]
  split <;> omega

theorem cInt_neg {value : Nat} (small : value < 2147483648) : cInt (UInt32.ofNat value * -1) = -value := by
  have positive : (UInt32.ofNat value).toBitVec.toInt = value := cInt_ofNat small
  have minusOne : (-1 : UInt32).toBitVec.toInt = -1 := by decide
  rw [cInt, Int32.toInt, UInt32.toBitVec_toInt32, UInt32.toBitVec_mul, BitVec.toInt_mul, positive, minusOne, Int.bmod_def]
  split <;> omega

theorem paddedDigits (zeros value : Nat) :
    (∀ digit ∈ List.replicate zeros (ascii '0') ++ decimal value, isDigit digit = true) ∧
      List.replicate zeros (ascii '0') ++ decimal value ≠ [] ∧
      decimalValue (List.replicate zeros (ascii '0') ++ decimal value) = value := by
  refine ⟨fun digit member => ?_, fun none_ => decimal_ne_nil value (List.append_eq_nil_iff.mp none_).2, ?_⟩
  · rcases List.mem_append.mp member with zero | isDecimal
    · rw [List.eq_of_mem_replicate zero]
      decide
    · exact decimal_digits digit isDecimal
  · have unchanged : (List.replicate zeros (ascii '0')).foldl (fun value digit => value * 10 + (digit.toNat - 48)) 0 = 0 := by
      induction zeros with
      | zero => rfl
      | succ zeros ih => exact ih
    rw [decimalValue, List.foldl_append, unchanged]
    exact decimalValue_decimal value

theorem intText_digits {width : Nat} (nonneg : 0 ≤ number) :
    (∀ digit ∈ intText false width number, isDigit digit = true) ∧ intText false width number ≠ [] ∧
      decimalValue (intText false width number) = number.toNat := by
  have same : number.natAbs = number.toNat := by omega
  rw [intText, if_neg (by omega), if_neg (by decide), List.nil_append, same]
  exact paddedDigits _ _

theorem timeNumberParse_intText {width : Nat} (nonneg : 0 ≤ number) (small : number < 2147483648) (ends : rest.takeWhile isDigit = []) :
    timeNumberParse (intText false width number ++ rest) = some (number, rest) := by
  obtain ⟨areDigits, nonempty, value⟩ := @intText_digits _ width nonneg
  rw [timeNumberParse, mailimfNumberParse_digits areDigits nonempty ends, Option.map_some, value]
  have same : cInt (UInt32.ofNat number.toNat) = number := by
    rw [cInt_ofNat (by omega), Int.toNat_of_nonneg nonneg]
  exact congrArg (fun number => some (number, rest)) same

theorem digit_visible : ∀ digit, isDigit digit = true → isBlankOctet digit = false ∧ digit ≠ ascii '(' :=
  forall_octet (by decide +kernel)

theorem cfwsNumberParse_intText {lead : List UInt8} (skipped : Skipped lead) {width : Nat} (nonneg : 0 ≤ number)
    (small : number < 2147483648) (ends : rest.takeWhile isDigit = []) :
    cfwsNumberParse (lead ++ (intText false width number ++ rest)) = some (number, rest) := by
  obtain ⟨areDigits, nonempty, -⟩ := @intText_digits _ width nonneg
  obtain ⟨digit, others, spelled⟩ := List.exists_cons_of_ne_nil nonempty
  obtain ⟨visible, noComment⟩ := digit_visible digit (areDigits digit (by rw [spelled]; exact List.mem_cons_self))
  have started : skipCfws (lead ++ (intText false width number ++ rest)) = intText false width number ++ rest := by
    rw [spelled, List.cons_append]
    exact skipped.cfws visible noComment
  rw [cfwsNumberParse, started]
  exact timeNumberParse_intText nonneg small ends

end Number

/-- The names of zones that `obs-zone` lists, without the military ones. -/
inductive ZoneName where
  | ut
  | gmt
  | est
  | edt
  | cst
  | cdt
  | mst
  | mdt
  | pst
  | pdt
deriving Repr, DecidableEq

def ZoneName.text : ZoneName → List UInt8
  | .ut => asciiText "UT"
  | .gmt => asciiText "GMT"
  | .est => asciiText "EST"
  | .edt => asciiText "EDT"
  | .cst => asciiText "CST"
  | .cdt => asciiText "CDT"
  | .mst => asciiText "MST"
  | .mdt => asciiText "MDT"
  | .pst => asciiText "PST"
  | .pdt => asciiText "PDT"

def ZoneName.offset : ZoneName → Int
  | .ut => 0
  | .gmt => 0
  | .est => -500
  | .edt => -400
  | .cst => -600
  | .cdt => -500
  | .mst => -700
  | .mdt => -600
  | .pst => -800
  | .pdt => -700

structure EndsDate (rest : List UInt8) : Prop where
  noDigit : rest.takeWhile isDigit = []
  noSign : rest.head? ≠ some (ascii '+') ∧ rest.head? ≠ some (ascii '-')

theorem mailimfZoneParse_name {rest : List UInt8} (ends : EndsDate rest) (name : ZoneName) :
    mailimfZoneParse (name.text ++ rest) = some (if name = .ut then 1 else name.offset, rest) := by
  have unsigned : ¬ (rest.head? = some (ascii '+') ∨ rest.head? = some (ascii '-')) := not_or.mpr ends.noSign
  cases name with
  | gmt =>
      have stopped : zoneAutomaton (ZoneName.gmt.text ++ rest) = .ok 0 rest := if_neg unsigned
      have notUt : ¬ (ZoneName.gmt.text ++ rest).take 2 = asciiText "UT" := by
        change ¬ asciiText "GM" = asciiText "UT"
        decide
      rw [mailimfZoneParse, if_neg notUt, stopped]
      rfl
  | ut | est | edt | cst | cdt | mst | mdt | pst | pdt => rfl

theorem zoneAutomaton_sign {sign : UInt8} (isSign : sign = ascii '+' ∨ sign = ascii '-') (text : List UInt8) :
    zoneAutomaton (sign :: text) = .cont (sign :: text) := by
  rcases isSign with rfl | rfl <;>
    · cases text with
      | nil => rfl
      | cons second text => cases text <;> rfl

theorem intText_signed (width : Nat) (number : Int) :
    ∃ digits, intText true width number = (if number < 0 then ascii '-' else ascii '+') :: digits ∧
      (∀ digit ∈ digits, isDigit digit = true) ∧ digits ≠ [] ∧ decimalValue digits = number.natAbs := by
  refine ⟨_, ?_, paddedDigits (width - (1 + (decimal number.natAbs).length)) number.natAbs⟩
  rw [intText]
  split <;> rfl

theorem mailimfZoneParse_number {rest : List UInt8} (ends : EndsDate rest) {zone : Int} (low : -1459 ≤ zone) (high : zone ≤ 1459) :
    mailimfZoneParse (intText true 5 zone ++ rest) = some (zone, rest) := by
  obtain ⟨digits, spelled, areDigits, nonempty, value⟩ := intText_signed 5 zone
  generalize isSign : (if zone < 0 then ascii '-' else ascii '+') = sign at spelled
  have plusOrMinus : sign = ascii '+' ∨ sign = ascii '-' := by
    rw [← isSign]
    split
    · exact .inr rfl
    · exact .inl rfl
  have notUt : ¬ (sign :: (digits ++ rest)).take 2 = asciiText "UT" := by
    intro same
    have first : sign = ascii 'U' := (List.cons.inj same).1
    rw [first] at plusOrMinus
    revert plusOrMinus
    decide
  have read := mailimfNumberParse_digits areDigits nonempty ends.noDigit
  rw [spelled, List.cons_append, mailimfZoneParse, if_neg notUt, zoneAutomaton_sign plusOrMinus]
  have small : zone.natAbs < 2147483648 := by omega
  dsimp only
  by_cases negative : zone < 0
  · rw [if_pos negative] at isSign
    subst isSign
    have noPlus : mailimfPlusParse (ascii '-' :: (digits ++ rest)) = none :=
      @Skipped.unstrictChar [] _ _ skipped_nil (by decide) (by decide) (ascii '+')
    have minus : mailimfMinusParse (ascii '-' :: (digits ++ rest)) = some (digits ++ rest) :=
      @Skipped.unstrictChar [] _ _ skipped_nil (by decide) (by decide) (ascii '-')
    have signed := cInt_neg small
    simp only [zoneNumberParse, noPlus, minus, read, Option.map_some, value, signed]
    rw [show -((zone.natAbs : Nat) : Int) = zone by omega]
  · rw [if_neg negative] at isSign
    subst isSign
    have plus : mailimfPlusParse (ascii '+' :: (digits ++ rest)) = some (digits ++ rest) :=
      @Skipped.unstrictChar [] _ _ skipped_nil (by decide) (by decide) (ascii '+')
    have unsigned := cInt_ofNat small
    simp only [zoneNumberParse, plus, read, Option.map_some, value, UInt32.mul_one, unsigned]
    rw [show ((zone.natAbs : Nat) : Int) = zone by omega]

theorem mailimfDayOfWeekParse_name {wday : Nat} (isDay : wday < 7) (rest : List UInt8) :
    ∃ value, mailimfDayOfWeekParse (weekOfDayStr.getD wday [] ++ rest) = some (value, rest) := by
  interval_cases wday <;> exact ⟨_, rfl⟩

theorem mailimfMonthParse_name {month : Nat} (isMonth : month < 12) (rest : List UInt8) :
    mailimfMonthParse (ascii ' ' :: (monthStr.getD month [] ++ rest)) = some ((month : Int) + 1, rest) := by
  interval_cases month <;> rfl

theorem noDigit_cons {ch : UInt8} (other : isDigit ch = false) (rest : List UInt8) : (ch :: rest).takeWhile isDigit = [] :=
  List.takeWhile_cons_of_neg (by rw [other]; decide)

section Whole

variable {dateTime : MailimfDateTime} (valid : ValidDateTime dateTime)

include valid

theorem mailimfDateParse_written (rest : List UInt8) :
    mailimfDateParse (ascii ' ' :: (intText false 0 dateTime.dtDay ++ ascii ' ' :: (monthStr.getD (dateTime.dtMonth - 1).toNat [] ++
      ascii ' ' :: (intText false 0 dateTime.dtYear ++ ascii ' ' :: rest)))) =
      some ((dateTime.dtDay, dateTime.dtMonth, dateTime.dtYear), ascii ' ' :: rest) := by
  obtain ⟨⟨fromYear, toYear⟩, ⟨fromMonth, toMonth⟩, ⟨fromDay, toDay⟩, -⟩ := valid
  have short : monthLength dateTime.dtYear (dateTime.dtMonth - 1).toNat ≤ 31 := by
    rw [monthLength]
    split_ifs <;> omega
  have blank : isDigit (ascii ' ') = false := by decide
  have day : ∀ rest, cfwsNumberParse (ascii ' ' :: (intText false 0 dateTime.dtDay ++ ascii ' ' :: rest)) =
      some (dateTime.dtDay, ascii ' ' :: rest) := fun rest =>
    cfwsNumberParse_intText skipped_blank (by omega) (by omega) (noDigit_cons blank rest)
  have year : cfwsNumberParse (ascii ' ' :: (intText false 0 dateTime.dtYear ++ ascii ' ' :: rest)) =
      some (dateTime.dtYear, ascii ' ' :: rest) :=
    cfwsNumberParse_intText skipped_blank (by omega) (by omega) (noDigit_cons blank rest)
  have month : ∀ rest, mailimfMonthParse (ascii ' ' :: (monthStr.getD (dateTime.dtMonth - 1).toNat [] ++ rest)) =
      some (dateTime.dtMonth, rest) := fun rest => by
    rw [mailimfMonthParse_name (by omega), show (((dateTime.dtMonth - 1).toNat : Nat) : Int) + 1 = dateTime.dtMonth by omega]
  rw [mailimfDateParse]
  simp only [mailimfDayParse, mailimfYearParse, Option.bind_eq_bind, day, month, year, Option.bind_some]

theorem mailimfTimeOfDayParse_written (rest : List UInt8) :
    mailimfTimeOfDayParse (intText false 2 dateTime.dtHour ++ ascii ':' :: (intText false 2 dateTime.dtMin ++
      ascii ':' :: (intText false 2 dateTime.dtSec ++ ascii ' ' :: rest))) =
      some ((dateTime.dtHour, dateTime.dtMin, dateTime.dtSec), ascii ' ' :: rest) := by
  obtain ⟨-, -, -, hour, min, sec, -⟩ := valid
  have colon : ∀ text, mailimfColonParse (ascii ':' :: text) = some text := fun text =>
    @Skipped.unstrictChar [] text _ skipped_nil (by decide) (by decide) (ascii ':')
  have noDigit : isDigit (ascii ':') = false ∧ isDigit (ascii ' ') = false := by decide
  have hourRead := fun rest => @timeNumberParse_intText (ascii ':' :: rest) dateTime.dtHour 2 hour.1 (by omega) (noDigit_cons noDigit.1 rest)
  have minRead := fun rest => @timeNumberParse_intText (ascii ':' :: rest) dateTime.dtMin 2 min.1 (by omega) (noDigit_cons noDigit.1 rest)
  have secRead := @timeNumberParse_intText (ascii ' ' :: rest) dateTime.dtSec 2 sec.1 (by omega) (noDigit_cons noDigit.2 rest)
  rw [mailimfTimeOfDayParse]
  simp only [Option.bind_eq_bind, hourRead, minRead, secRead, colon, Option.bind_some]

theorem hour_head (rest : List UInt8) :
    ∃ digit others, intText false 2 dateTime.dtHour ++ rest = digit :: others ∧ isBlankOctet digit = false ∧ digit ≠ ascii '(' := by
  obtain ⟨areDigits, nonempty, -⟩ := @intText_digits dateTime.dtHour 2 valid.hour.1
  obtain ⟨digit, others, spelled⟩ := List.exists_cons_of_ne_nil nonempty
  have isDigit := areDigits digit (by rw [spelled]; exact List.mem_cons_self)
  exact ⟨digit, others ++ rest, by rw [spelled, List.cons_append], digit_visible digit isDigit⟩

theorem mailimfDateTimeParse_with {zone rest : List UInt8} {value : Int} {ch : UInt8} {others : List UInt8}
    (starts : zone ++ rest = ch :: others) (visible : isBlankOctet ch = false)
    (read : mailimfZoneParse (zone ++ rest) = some (value, rest)) :
    mailimfDateTimeParse (dateStrWith dateTime zone ++ rest) = some ({ dateTime with dtZone := value }, rest) := by
  have wday : (dayofweek dateTime.dtYear dateTime.dtMonth dateTime.dtDay).toNat < 7 := by
    rw [dayofweek_eq valid, weekday]
    omega
  simp only [dateStrWith, List.append_assoc, List.cons_append]
  obtain ⟨_, dayOfWeek⟩ := mailimfDayOfWeekParse_name wday
    (ascii ',' :: ascii ' ' :: (intText false 0 dateTime.dtDay ++ ascii ' ' :: (monthStr.getD (dateTime.dtMonth - 1).toNat [] ++
      ascii ' ' :: (intText false 0 dateTime.dtYear ++ ascii ' ' :: (intText false 2 dateTime.dtHour ++
      ascii ':' :: (intText false 2 dateTime.dtMin ++ ascii ':' :: (intText false 2 dateTime.dtSec ++ ascii ' ' :: (zone ++ rest))))))))
  have comma : ∀ text, mailimfCommaParse (ascii ',' :: text) = some text := fun text =>
    @Skipped.unstrictChar [] text _ skipped_nil (by decide) (by decide) (ascii ',')
  obtain ⟨digit, digits, hourStarts, digitVisible, noComment⟩ := hour_head valid
    (ascii ':' :: (intText false 2 dateTime.dtMin ++ ascii ':' :: (intText false 2 dateTime.dtSec ++ ascii ' ' :: (zone ++ rest))))
  have blank : mailimfFwsParse (ascii ' ' :: digit :: digits) = some (digit :: digits) := by
    have skipped := @Skipped.fws [ascii ' '] digits digit skipped_blank digitVisible
    rw [mailimfFwsParse, if_pos (by rfl)]
    exact congrArg some skipped
  have started : skipCfws (digit :: digits) = digit :: digits := @Skipped.cfws [] digits digit skipped_nil digitVisible noComment
  have zoneStarts : skipFws (ascii ' ' :: (zone ++ rest)) = zone ++ rest := by
    rw [starts]
    exact @Skipped.fws [ascii ' '] others ch skipped_blank visible
  have time := mailimfTimeOfDayParse_written valid (zone ++ rest)
  rw [hourStarts] at time
  rw [mailimfDateTimeParse, dayOfWeek]
  simp only [comma, Option.getD_some, mailimfDateParse_written valid, hourStarts, blank, Option.bind_eq_bind, Option.bind_some,
    mailimfTimeParse, started, time, zoneStarts, read]

end Whole

theorem intText_plain (plus : Bool) (width : Nat) {number : Int} (small : number.natAbs < 10000) :
    BreakFree (intText plus width number) ∧ (intText plus width number).length ≤ width + 5 := by
  have digits : (decimal number.natAbs).length ≤ 4 := by
    rw [decimal_length]
    exact digitCount_le (by decide) (by omega)
  generalize isSign : (if number < 0 then [ascii '-'] else if plus then [ascii '+'] else []) = sign
  have plainSign : BreakFree sign ∧ sign.length ≤ 1 := by
    rw [← isSign]
    split_ifs <;> decide
  have zero : ascii '0' ≠ CR ∧ ascii '0' ≠ LF := by decide
  rw [intText, isSign]
  refine ⟨?_, ?_⟩
  · refine (plainSign.1.append fun byte member => ?_).append (decimal_plain _).2
    rw [List.eq_of_mem_replicate member]
    exact zero
  · rw [List.length_append, List.length_append, List.length_replicate]
    have := plainSign.2
    omega

theorem name_plain {names : List (List UInt8)} (plain : ∀ name ∈ names, BreakFree name ∧ name.length ≤ 3) (index : Nat) :
    BreakFree (names.getD index []) ∧ (names.getD index []).length ≤ 3 := by
  rw [List.getD_eq_getElem?_getD]
  cases found : names[index]? with
  | none => exact ⟨by decide, by decide⟩
  | some name => exact plain name (List.mem_of_getElem? found)

theorem dateStr_plain {dateTime : MailimfDateTime} (valid : ValidDateTime dateTime) :
    BreakFree (dateStr dateTime) ∧ (dateStr dateTime).length ≤ maxImfLine := by
  obtain ⟨⟨fromYear, toYear⟩, -, ⟨fromDay, toDay⟩, hour, min, sec, zone⟩ := valid
  have short : monthLength dateTime.dtYear (dateTime.dtMonth - 1).toNat ≤ 31 := by
    rw [monthLength]
    split_ifs <;> omega
  obtain ⟨wdayFree, wdayShort⟩ := @name_plain weekOfDayStr (by decide)
    (dayofweek dateTime.dtYear dateTime.dtMonth dateTime.dtDay).toNat
  obtain ⟨monthFree, monthShort⟩ := @name_plain monthStr (by decide) (dateTime.dtMonth - 1).toNat
  obtain ⟨dayFree, dayShort⟩ := @intText_plain false 0 dateTime.dtDay (by omega)
  obtain ⟨yearFree, yearShort⟩ := @intText_plain false 0 dateTime.dtYear (by omega)
  obtain ⟨hourFree, hourShort⟩ := @intText_plain false 2 dateTime.dtHour (by omega)
  obtain ⟨minFree, minShort⟩ := @intText_plain false 2 dateTime.dtMin (by omega)
  obtain ⟨secFree, secShort⟩ := @intText_plain false 2 dateTime.dtSec (by omega)
  obtain ⟨zoneFree, zoneShort⟩ := @intText_plain true 5 dateTime.dtZone (by omega)
  have blank : ascii ' ' ≠ CR ∧ ascii ' ' ≠ LF := by decide
  have colon : ascii ':' ≠ CR ∧ ascii ':' ≠ LF := by decide
  have comma : ascii ',' ≠ CR ∧ ascii ',' ≠ LF := by decide
  refine ⟨?_, ?_⟩
  · exact wdayFree.append <| .cons comma.1 comma.2 <| .cons blank.1 blank.2 <| dayFree.append <| .cons blank.1 blank.2 <|
      monthFree.append <| .cons blank.1 blank.2 <| yearFree.append <| .cons blank.1 blank.2 <| hourFree.append <|
      .cons colon.1 colon.2 <| minFree.append <| .cons colon.1 colon.2 <| secFree.append <| .cons blank.1 blank.2 zoneFree
  · simp only [dateStr, dateStrWith, List.length_append, List.length_cons, maxImfLine]
    omega

/-- A date survives writing and reading, the day of the week that is written is the right one, and the text with the
name of a zone is read as the date with the offset of that name. -/
structure DateRoundTrip (col : Nat) (dateTime : MailimfDateTime) (name : ZoneName) (rest : List UInt8) : Prop where
  parsed : mailimfDateTimeParse ((mailimfDateTimeWriteDriver { data := [], col } dateTime).data ++ rest) = some (dateTime, rest)
  weekday : ∃ front, (mailimfDateTimeWriteDriver { data := [], col } dateTime).data =
    weekOfDayStr.getD (weekday dateTime).toNat [] ++ ascii ',' :: front
  renamed : ∀ front, (mailimfDateTimeWriteDriver { data := [], col } dateTime).data = front ++ intText true 5 dateTime.dtZone →
    mailimfDateTimeParse (front ++ name.text ++ rest) = some ({ dateTime with dtZone := name.offset }, rest)

theorem ZoneName.text_head (name : ZoneName) (rest : List UInt8) :
    ∃ ch others, name.text ++ rest = ch :: others ∧ isBlankOctet ch = false := by
  cases name <;> exact ⟨_, _, rfl, by decide⟩

theorem zone_head (zone : Int) (rest : List UInt8) :
    ∃ ch others, intText true 5 zone ++ rest = ch :: others ∧ isBlankOctet ch = false := by
  obtain ⟨digits, spelled, -⟩ := intText_signed 5 zone
  refine ⟨_, digits ++ rest, by rw [spelled, List.cons_append], ?_⟩
  split <;> decide

theorem dateStrWith_append (dateTime : MailimfDateTime) :
    ∃ front, ∀ zone, dateStrWith dateTime zone = front ++ zone := by
  refine ⟨dateStrWith dateTime [], fun zone => ?_⟩
  simp only [dateStrWith, List.append_assoc, List.cons_append, List.nil_append]

/-- Only `UT` is given a wrong offset. -/
theorem mailimfDateTime_roundTrip {dateTime : MailimfDateTime} (valid : ValidDateTime dateTime) {rest : List UInt8}
    (ends : EndsDate rest) (col : Nat) (name : ZoneName) : DateRoundTrip col dateTime name rest ↔ name ≠ .ut := by
  obtain ⟨free, short⟩ := dateStr_plain valid
  have written : (mailimfDateTimeWriteDriver { data := [], col } dateTime).data = dateStr dateTime := by
    rw [mailimfDateTimeWriteDriver, writeString_breakFree free short]
    exact List.nil_append _
  obtain ⟨front, split⟩ := dateStrWith_append dateTime
  obtain ⟨ch, others, starts, visible⟩ := name.text_head rest
  have named := mailimfDateTimeParse_with valid starts visible (mailimfZoneParse_name ends name)
  have renamed : mailimfDateTimeParse (front ++ name.text ++ rest) =
      some ({ dateTime with dtZone := if name = .ut then 1 else name.offset }, rest) := by
    rw [← split]
    exact named
  constructor
  · rintro trip rfl
    have wrong := trip.renamed front (written.trans (split _))
    rw [renamed] at wrong
    have zones := congrArg (fun found => found.map fun found => found.1.dtZone) wrong
    simp [ZoneName.offset] at zones
  · intro other
    refine ⟨?_, ?_, ?_⟩
    · obtain ⟨sign, digits, zoneStarts, signVisible⟩ := zone_head dateTime.dtZone rest
      rw [written]
      exact mailimfDateTimeParse_with valid zoneStarts signVisible (mailimfZoneParse_number ends valid.zone.1 valid.zone.2)
    · rw [written, dateStr, dateStrWith, dayofweek_eq valid]
      exact ⟨_, rfl⟩
    · intro another splits
      have same : another = front := by
        rw [written, dateStr, split] at splits
        exact (List.append_cancel_right splits).symm
      rw [same, renamed, if_neg other]

theorem mailimfDateTime_roundTrip_leapDay :
    DateRoundTrip 6 ⟨29, 2, 2024, 23, 59, 60, -330⟩ .edt [CR, LF] ↔ ZoneName.edt ≠ .ut :=
  mailimfDateTime_roundTrip ⟨by decide, by decide, by decide, by decide, by decide, by decide, by decide⟩ ⟨by decide, by decide⟩ 6 .edt

/-- `Thu, 1 Jan 1970 00:00:00 UT` is read with the zone `+0001`. -/
theorem mailimfDateTime_ut : ¬ DateRoundTrip 6 ⟨1, 1, 1970, 0, 0, 0, 0⟩ .ut [] := by
  intro trip
  have written : (mailimfDateTimeWriteDriver { data := [], col := 6 } ⟨1, 1, 1970, 0, 0, 0, 0⟩).data =
      asciiText "Thu, 1 Jan 1970 00:00:00 " ++ intText true 5 0 := by decide +kernel
  have named := trip.renamed _ written
  have read : (mailimfDateTimeParse (asciiText "Thu, 1 Jan 1970 00:00:00 " ++ ZoneName.ut.text ++ [])).map (fun found => found.1.dtZone) =
      some 1 := by decide +kernel
  rw [named] at read
  exact absurd read (by decide)

end Etpan.Imf
