import Etpan.Data.Calendar
import Etpan.Data.Comparator

namespace Etpan.Thread

open Etpan.Data

/-! `mail_mkgmtime` of `data-types/timeutils.c` and the date of a message in
`driver/tools/mailthread.c`.  `time_t` has 64 bits. -/

structure Tm where
  sec : Int
  min : Int
  hour : Int
  mday : Int
  mon : Int
  year : Int
deriving Repr, DecidableEq

/-- `gmtime` of the C library; NULL where the year is no `int`. -/
def gmtime (t : Int) : Option Tm :=
  let date := Date.ofNumber (t / 86400)
  let rest := t % 86400
  let year := date.year - 1900
  if year < -2 ^ 31 ∨ 2 ^ 31 ≤ year then none
  else some { sec := rest % 60, min := rest % 3600 / 60, hour := rest / 3600, mday := date.day, mon := date.month, year }

def tmcomp (atmp btmp : Tm) : Int :=
  if atmp.year - btmp.year ≠ 0 then atmp.year - btmp.year
  else if atmp.mon - btmp.mon ≠ 0 then atmp.mon - btmp.mon
  else if atmp.mday - btmp.mday ≠ 0 then atmp.mday - btmp.mday
  else if atmp.hour - btmp.hour ≠ 0 then atmp.hour - btmp.hour
  else if atmp.min - btmp.min ≠ 0 then atmp.min - btmp.min
  else atmp.sec - btmp.sec

def WRONG : Int := -1

/-- The search, `none` where it returns `WRONG`; `1 << bits` is a power of two. -/
def searchTime (yourtm : Tm) (bits t : Int) : Option Int :=
  match gmtime t with
  | none => none
  | some mytm =>
      let dir := tmcomp mytm yourtm
      if dir ≠ 0 then
        if bits < 0 then none
        else
          let fewer := bits - 1
          if fewer < 0 then searchTime yourtm fewer (t - 1)
          else if dir > 0 then searchTime yourtm fewer (t - 2 ^ fewer.toNat)
          else searchTime yourtm fewer (t + 2 ^ fewer.toNat)
      else some t
termination_by (bits + 1).toNat

/-- The loop that counts the magnitude bits of a `time_t`, and the value it ends with. -/
def magnitudeBits : Nat → BitVec 64 → Int → Int × BitVec 64
  | 0, t, bits => (bits, t)
  | steps + 1, t, bits => if (0 : BitVec 64).slt t then magnitudeBits steps (t <<< 1) (bits + 1) else (bits, t)

def mailMkgmtime (tmp : Tm) : Int :=
  let savedSeconds := tmp.sec
  let yourtm := { tmp with sec := 0 }
  let (bits, t) := magnitudeBits 64 1 0
  let t := if t.slt 0 then 0 else 2 ^ bits.toNat
  let bits := if bits > 40 then 40 else bits
  match searchTime yourtm bits t with
  | none => WRONG
  | some t => t + savedSeconds

/-- `struct mailimf_date_time`; the zone is the signed decimal number of the header. -/
structure MailimfDateTime where
  day : Int
  month : Int
  year : Int
  hour : Int
  min : Int
  sec : Int
  zone : Int
deriving Repr, DecidableEq

def MailimfDateTime.tm (dateTime : MailimfDateTime) : Tm :=
  { sec := dateTime.sec, min := dateTime.min, hour := dateTime.hour, mday := dateTime.day,
    mon := dateTime.month - 1, year := dateTime.year - 1900 }

/-- `get_date` of a message that has a Date field. -/
def dateOfField (dateTime : MailimfDateTime) : Int := mailMkgmtime dateTime.tm - dateTime.zone * 36

structure Tm.On (tm : Tm) (date : Date) : Prop where
  year : tm.year = date.year - 1900
  mon : tm.mon = date.month
  mday : tm.mday = date.day

structure Tm.InDay (tm : Tm) : Prop where
  hour : 0 ≤ tm.hour ∧ tm.hour < 24
  min : 0 ≤ tm.min ∧ tm.min < 60
  sec : 0 ≤ tm.sec ∧ tm.sec ≤ 60

def Tm.secondsOn (tm : Tm) (date : Date) : Int := 86400 * date.number + 3600 * tm.hour + 60 * tm.min + tm.sec

theorem gmtime_spec {t : Int} (near : |t| ≤ 2 ^ 41) :
    ∃ tm date, gmtime t = some tm ∧ date.Valid ∧ tm.On date ∧ tm.InDay ∧ tm.sec < 60 ∧ tm.secondsOn date = t := by
  obtain ⟨valid, number, lower, upper⟩ := Date.ofNumber_spec (t / 86400)
  have days : |t / 86400| ≤ 2 ^ 26 := by
    rw [abs_le] at near ⊢
    omega
  have year : ¬ ((Date.ofNumber (t / 86400)).year - 1900 < -2 ^ 31 ∨ 2 ^ 31 ≤ (Date.ofNumber (t / 86400)).year - 1900) := by
    omega
  exact ⟨_, Date.ofNumber (t / 86400), if_neg year, valid, ⟨rfl, rfl, rfl⟩, ⟨by simp only; omega, by simp only; omega, by simp only; omega⟩,
    by simp only; omega, by simp only [Tm.secondsOn, number]; omega⟩

theorem tmcomp_sign {tm other : Tm} {date otherDate : Date} (valid : date.Valid) (otherValid : otherDate.Valid)
    (on : tm.On date) (otherOn : other.On otherDate) (inDay : tm.InDay) (otherInDay : other.InDay)
    (sec : tm.sec < 60) (otherSec : other.sec < 60) :
    (tmcomp tm other).sign = (tm.secondsOn date - other.secondsOn otherDate).sign := by
  obtain ⟨hour, min, first⟩ := inDay
  obtain ⟨otherHour, otherMin, otherFirst⟩ := otherInDay
  have year := on.year
  have otherYear := otherOn.year
  have mon := on.mon
  have otherMon := otherOn.mon
  have mday := on.mday
  have otherMday := otherOn.mday
  rw [sign_eq_iff, tmcomp, Tm.secondsOn, Tm.secondsOn]
  rcases lt_trichotomy date.year otherDate.year with earlier | sameYear | later
  · have days := Date.number_lt_of_year valid otherValid earlier
    rw [if_pos (by omega)]
    omega
  · rw [if_neg (by omega)]
    rcases lt_trichotomy date.month otherDate.month with earlier | sameMonth | later
    · have days := Date.number_lt_of_month valid otherValid sameYear earlier
      rw [if_pos (by omega)]
      omega
    · have days := Date.number_sub_of_day sameYear sameMonth
      rw [if_neg (by omega)]
      split_ifs <;> omega
    · have days := Date.number_lt_of_month otherValid valid sameYear.symm later
      rw [if_pos (by omega)]
      omega
  · have days := Date.number_lt_of_year otherValid valid later
    rw [if_pos (by omega)]
    omega

/-- The time searched for stays within `2 ^ bits` of the current one. -/
theorem searchTime_finds {yourtm : Tm} {date : Date} (valid : date.Valid) (on : yourtm.On date) (inDay : yourtm.InDay)
    (whole : yourtm.sec = 0) :
    ∀ (bits : Nat) (t : Int), bits ≤ 40 → |yourtm.secondsOn date - t| < 2 ^ bits → |t| ≤ 2 ^ 41 - 2 ^ bits →
      searchTime yourtm bits t = some (yourtm.secondsOn date) := by
  intro bits
  induction bits with
  | zero =>
      intro t _ within near
      have here : yourtm.secondsOn date = t := by
        rw [abs_lt] at within
        omega
      obtain ⟨mytm, myDate, broken, myValid, myOn, myInDay, mySec, mySeconds⟩ := gmtime_spec (t := t) (by omega)
      have compared := tmcomp_sign myValid valid myOn on myInDay inDay mySec (by omega)
      have equal : tmcomp mytm yourtm = 0 := by
        rw [mySeconds, here, sub_self] at compared
        exact Int.sign_eq_zero_iff_zero.mp (by rw [compared, Int.sign_zero])
      rw [searchTime, broken]
      simp only [equal, ne_eq, not_true_eq_false, if_false, here]
  | succ bits ih =>
      intro t atMost within near
      have double : (2 : Int) ^ (bits + 1) = 2 * 2 ^ bits := by rw [pow_succ, mul_comm]
      have positive : (0 : Int) < 2 ^ bits := by positivity
      have bounded : (2 : Int) ^ bits ≤ 2 ^ 40 := pow_le_pow_right₀ (by decide) (by omega)
      obtain ⟨mytm, myDate, broken, myValid, myOn, myInDay, mySec, mySeconds⟩ := gmtime_spec (t := t) (by omega)
      have compared := tmcomp_sign myValid valid myOn on myInDay inDay mySec (by omega)
      rw [mySeconds, sign_eq_iff] at compared
      have fewer : ((bits + 1 : Nat) : Int) - 1 = bits := by omega
      rw [searchTime, broken]
      simp only [fewer, Int.toNat_natCast]
      rw [double, abs_lt] at within
      rw [double, abs_le] at near
      by_cases differ : tmcomp mytm yourtm ≠ 0
      · rw [if_pos differ, if_neg (by omega), if_neg (by omega)]
        split_ifs with above
        · exact ih _ (by omega) (by rw [abs_lt]; omega) (by rw [abs_le]; omega)
        · exact ih _ (by omega) (by rw [abs_lt]; omega) (by rw [abs_le]; omega)
      · rw [if_neg differ]
        congr 1
        omega

theorem magnitudeBits_time : magnitudeBits 64 1 0 = (63, BitVec.intMin 64) := by decide

theorem mailMkgmtime_eq {tm : Tm} {date : Date} (valid : date.Valid) (on : tm.On date) (inDay : tm.InDay)
    (firstYear : 1970 ≤ date.year) (lastYear : date.year ≤ 2037) : mailMkgmtime tm = tm.secondsOn date := by
  have after : 0 ≤ date.number := (yearStart_mono firstYear).trans (Date.yearStart_le_number valid)
  have before : date.number < 24837 :=
    (Date.number_lt_yearStart valid).trans_le (yearStart_mono (show date.year + 1 ≤ 2038 by omega))
  obtain ⟨hour, min, sec⟩ := inDay
  have wholeOn : ({ tm with sec := 0 } : Tm).On date := ⟨on.year, on.mon, on.mday⟩
  have found := searchTime_finds valid wholeOn ⟨hour, min, by simp⟩ rfl 40 0 (le_refl _)
    (by rw [abs_lt]; simp only [Tm.secondsOn]; omega) (by decide)
  rw [mailMkgmtime, magnitudeBits_time]
  simp only [show (BitVec.intMin 64).slt 0 = true by decide, show (63 : Int) > 40 by decide, if_true]
  rw [show (40 : Int) = ((40 : Nat) : Int) by rfl, found]
  simp only [Tm.secondsOn]
  omega

/-- A date-time that is valid in the Gregorian calendar, from 1970 to 2037, with a zone of
at most 14 hours. -/
structure MailimfDateTime.Valid (dateTime : MailimfDateTime) (date : Date) : Prop where
  calendar : date.Valid
  on : dateTime.tm.On date
  inDay : dateTime.tm.InDay
  firstYear : 1970 ≤ dateTime.year
  lastYear : dateTime.year ≤ 2037
  zoneHours : |dateTime.zone.tdiv 100| ≤ 14
  zoneMinutes : |dateTime.zone.tmod 100| ≤ 59

def MailimfDateTime.zoneMinutes (dateTime : MailimfDateTime) : Int := dateTime.zone.tmod 100

def MailimfDateTime.instant (dateTime : MailimfDateTime) (date : Date) : Int :=
  dateTime.tm.secondsOn date - (3600 * dateTime.zone.tdiv 100 + 60 * dateTime.zoneMinutes)

theorem dateOfField_eq {dateTime : MailimfDateTime} {date : Date} (valid : dateTime.Valid date) :
    dateOfField dateTime = dateTime.instant date + 24 * dateTime.zoneMinutes := by
  have year : dateTime.year - 1900 = date.year - 1900 := valid.on.year
  have firstYear := valid.firstYear
  have lastYear := valid.lastYear
  have decimal := Int.mul_tdiv_add_tmod dateTime.zone 100
  rw [dateOfField, mailMkgmtime_eq valid.calendar valid.on valid.inDay (by omega) (by omega), MailimfDateTime.instant,
    MailimfDateTime.zoneMinutes]
  omega

theorem dateOfField_lt_iff {a b : MailimfDateTime} {dateA dateB : Date} (validA : a.Valid dateA) (validB : b.Valid dateB) :
    (dateOfField a < dateOfField b ↔ a.instant dateA < b.instant dateB) ↔
      b.instant dateB - a.instant dateA ∉ Set.uIoc 0 (24 * (a.zoneMinutes - b.zoneMinutes)) := by
  rw [dateOfField_eq validA, dateOfField_eq validB, Set.mem_uIoc]
  omega

section Instants

def newYear (hour min zone : Int) : MailimfDateTime :=
  { day := 1, month := 1, year := 2000, hour, min, sec := 0, zone }

def newYearDate : Date := { year := 2000, month := 0, day := 1 }

theorem newYear_valid {hour min zone : Int} (hours : 0 ≤ hour ∧ hour < 24) (minutes : 0 ≤ min ∧ min < 60)
    (zoneHours : |zone.tdiv 100| ≤ 14) (zoneMinutes : |zone.tmod 100| ≤ 59) :
    (newYear hour min zone).Valid newYearDate where
  calendar := ⟨by decide, by decide, by decide⟩
  on := ⟨rfl, rfl, rfl⟩
  inDay := ⟨hours, minutes, le_refl (0 : Int), show (0 : Int) ≤ 60 by decide⟩
  firstYear := show (1970 : Int) ≤ 2000 by decide
  lastYear := show (2000 : Int) ≤ 2037 by decide
  zoneHours := zoneHours
  zoneMinutes := zoneMinutes

theorem newYear_ordered :
    dateOfField (newYear 12 0 100) < dateOfField (newYear 12 0 (-200)) ↔
      (newYear 12 0 100).instant newYearDate < (newYear 12 0 (-200)).instant newYearDate :=
  (dateOfField_lt_iff (newYear_valid (by decide) (by decide) (by decide) (by decide))
    (newYear_valid (by decide) (by decide) (by decide) (by decide))).mpr (by rw [Set.mem_uIoc]; decide)

/-- 12:00 +0030 is before 11:35 +0000. -/
theorem newYear_not_ordered :
    (newYear 12 0 30).Valid newYearDate ∧ (newYear 11 35 0).Valid newYearDate ∧
      ¬ (dateOfField (newYear 12 0 30) < dateOfField (newYear 11 35 0) ↔
        (newYear 12 0 30).instant newYearDate < (newYear 11 35 0).instant newYearDate) := by
  have first := @newYear_valid 12 0 30 (by decide) (by decide) (by decide) (by decide)
  have second := @newYear_valid 11 35 0 (by decide) (by decide) (by decide) (by decide)
  refine ⟨first, second, ?_⟩
  rw [dateOfField_eq first, dateOfField_eq second]
  decide

end Instants

end Etpan.Thread
