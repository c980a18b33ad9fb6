import Mathlib

namespace Etpan.Data

/-! The Gregorian calendar: the days are numbered from the first of January 1970. -/

structure Date where
  year : Int
  month : Nat
  day : Nat
deriving Repr, DecidableEq

def isLeapYear (year : Int) : Bool := year % 4 = 0 && (year % 100 ≠ 0 || year % 400 = 0)

def monthLength (year : Int) (month : Nat) : Nat :=
  if month = 1 then if isLeapYear year then 29 else 28
  else if month = 3 ∨ month = 5 ∨ month = 8 ∨ month = 10 then 30
  else 31

def leapYearsBefore (year : Int) : Int := (year - 1) / 4 - (year - 1) / 100 + (year - 1) / 400

def yearStart (year : Int) : Int := 365 * (year - 1970) + leapYearsBefore year - 477

def monthStart (year : Int) : Nat → Int
  | 0 => yearStart year
  | month + 1 => monthStart year month + monthLength year month

namespace Date

structure Valid (date : Date) : Prop where
  month : date.month < 12
  first : 1 ≤ date.day
  last : date.day ≤ monthLength date.year date.month

def number (date : Date) : Int := monthStart date.year date.month + date.day - 1

def next (date : Date) : Date :=
  if date.day < monthLength date.year date.month then { date with day := date.day + 1 }
  else if date.month < 11 then { date with month := date.month + 1, day := 1 }
  else { year := date.year + 1, month := 0, day := 1 }

def previous (date : Date) : Date :=
  if 1 < date.day then { date with day := date.day - 1 }
  else if 0 < date.month then { date with month := date.month - 1, day := monthLength date.year (date.month - 1) }
  else { year := date.year - 1, month := 11, day := 31 }

def epoch : Date := { year := 1970, month := 0, day := 1 }

def ofNumber (number : Int) : Date :=
  if 0 ≤ number then next^[number.toNat] epoch else previous^[(-number).toNat] epoch

end Date

theorem monthLength_pos (year : Int) (month : Nat) : 28 ≤ monthLength year month := by
  rw [monthLength]
  split_ifs <;> omega

theorem yearStart_succ (year : Int) :
    yearStart (year + 1) = yearStart year + (if isLeapYear year then 366 else 365) := by
  simp only [yearStart, leapYearsBefore, isLeapYear, Bool.and_eq_true, Bool.or_eq_true, decide_eq_true_eq]
  split_ifs <;> omega

theorem monthStart_twelve (year : Int) : monthStart year 12 = yearStart (year + 1) := by
  have february : monthLength year 1 = if isLeapYear year then 29 else 28 := rfl
  have months : monthStart year 12 = yearStart year + (31 : Nat) + monthLength year 1 + (31 : Nat) + (30 : Nat) +
      (31 : Nat) + (30 : Nat) + (31 : Nat) + (31 : Nat) + (30 : Nat) + (31 : Nat) + (30 : Nat) + (31 : Nat) := rfl
  rw [yearStart_succ, months, february]
  split_ifs <;> omega

theorem monthStart_mono (year : Int) : Monotone (monthStart year) :=
  monotone_nat_of_le_succ fun month => by
    rw [monthStart]
    omega

theorem yearStart_mono : Monotone yearStart :=
  monotone_int_of_le_succ fun year => by
    rw [yearStart_succ]
    split_ifs <;> omega

namespace Date

variable {date other : Date}

theorem monthStart_le_number (valid : date.Valid) : monthStart date.year date.month ≤ date.number := by
  have first := valid.first
  rw [number]
  omega

theorem number_lt_monthStart (valid : date.Valid) : date.number < monthStart date.year (date.month + 1) := by
  have last := valid.last
  rw [number, monthStart]
  omega

theorem yearStart_le_number (valid : date.Valid) : yearStart date.year ≤ date.number :=
  (monthStart_mono date.year (Nat.zero_le date.month)).trans (monthStart_le_number valid)

theorem number_lt_yearStart (valid : date.Valid) : date.number < yearStart (date.year + 1) := by
  have within := monthStart_mono date.year (Nat.succ_le_of_lt valid.month)
  rw [monthStart_twelve] at within
  exact (number_lt_monthStart valid).trans_le within

theorem number_lt_of_year (valid : date.Valid) (otherValid : other.Valid) (earlier : date.year < other.year) :
    date.number < other.number :=
  calc date.number < yearStart (date.year + 1) := number_lt_yearStart valid
    _ ≤ yearStart other.year := yearStart_mono earlier
    _ ≤ other.number := yearStart_le_number otherValid

theorem number_lt_of_month (valid : date.Valid) (otherValid : other.Valid) (sameYear : date.year = other.year)
    (earlier : date.month < other.month) : date.number < other.number :=
  calc date.number < monthStart date.year (date.month + 1) := number_lt_monthStart valid
    _ ≤ monthStart date.year other.month := monthStart_mono date.year earlier
    _ ≤ other.number := by rw [sameYear]; exact monthStart_le_number otherValid

theorem number_sub_of_day (sameYear : date.year = other.year) (sameMonth : date.month = other.month) :
    date.number - other.number = date.day - other.day := by
  rw [number, number, sameYear, sameMonth]
  omega

theorem valid_epoch : epoch.Valid := ⟨by decide, by decide, by decide⟩

theorem number_epoch : epoch.number = 0 := by decide

theorem Valid.next (valid : date.Valid) : date.next.Valid ∧ date.next.number = date.number + 1 := by
  obtain ⟨month, first, last⟩ := valid
  have length := monthLength_pos
  rw [Date.next]
  split_ifs with inMonth inYear
  · exact ⟨⟨month, by simp, inMonth⟩, by simp only [number]; omega⟩
  · have start : monthStart date.year (date.month + 1) = monthStart date.year date.month + monthLength date.year date.month :=
      rfl
    refine ⟨⟨by simp; omega, by simp, ?_⟩, ?_⟩
    · have := length date.year (date.month + 1)
      simp only
      omega
    · simp only [number, start]
      omega
  · have december : date.month = 11 := by omega
    have start := monthStart_twelve date.year
    rw [monthStart] at start
    refine ⟨⟨by simp, by simp, by simp [monthLength]⟩, ?_⟩
    simp only [number, december, monthStart] at *
    omega

theorem Valid.previous (valid : date.Valid) : date.previous.Valid ∧ date.previous.number = date.number - 1 := by
  obtain ⟨month, first, last⟩ := valid
  have length := monthLength_pos
  rw [Date.previous]
  split_ifs with inMonth inYear
  · exact ⟨⟨month, by simp; omega, by simp; omega⟩, by simp only [number]; omega⟩
  · obtain ⟨before, here⟩ : ∃ before, date.month = before + 1 := ⟨date.month - 1, by omega⟩
    have start : monthStart date.year (before + 1) = monthStart date.year before + monthLength date.year before := rfl
    have some_days := length date.year before
    simp only [number, here, Nat.add_sub_cancel, start]
    exact ⟨⟨by simp only; omega, by simp only; omega, le_refl _⟩, by omega⟩
  · have january : date.month = 0 := by omega
    have start := monthStart_twelve (date.year - 1)
    have december : monthLength (date.year - 1) 11 = 31 := rfl
    rw [monthStart, december, sub_add_cancel] at start
    have own : monthStart date.year 0 = yearStart date.year := rfl
    refine ⟨⟨by simp, by simp, by simp [monthLength]⟩, ?_⟩
    simp only [number, january, own]
    omega

theorem year_next (date : Date) : date.year ≤ date.next.year ∧ date.next.year ≤ date.year + 1 := by
  rw [next]
  split_ifs <;> simp

theorem year_previous (date : Date) : date.year - 1 ≤ date.previous.year ∧ date.previous.year ≤ date.year := by
  rw [previous]
  split_ifs <;> simp

theorem iterate_next (count : Nat) :
    (next^[count] epoch).Valid ∧ (next^[count] epoch).number = count ∧
      1970 ≤ (next^[count] epoch).year ∧ (next^[count] epoch).year ≤ 1970 + count := by
  induction count with
  | zero => exact ⟨valid_epoch, number_epoch, le_refl _, by simp [epoch]⟩
  | succ count ih =>
      obtain ⟨valid, here, after, before⟩ := ih
      rw [Function.iterate_succ_apply']
      have year := year_next (next^[count] epoch)
      exact ⟨valid.next.1, by rw [valid.next.2, here]; rfl, by omega, by push_cast; omega⟩

theorem iterate_previous (count : Nat) :
    (previous^[count] epoch).Valid ∧ (previous^[count] epoch).number = - count ∧
      1970 - count ≤ (previous^[count] epoch).year ∧ (previous^[count] epoch).year ≤ 1970 := by
  induction count with
  | zero => exact ⟨valid_epoch, number_epoch, by simp [epoch], le_refl _⟩
  | succ count ih =>
      obtain ⟨valid, here, after, before⟩ := ih
      rw [Function.iterate_succ_apply']
      have year := year_previous (previous^[count] epoch)
      exact ⟨valid.previous.1, by rw [valid.previous.2, here]; push_cast; omega, by push_cast; omega, by omega⟩

theorem ofNumber_spec (days : Int) :
    (ofNumber days).Valid ∧ (ofNumber days).number = days ∧
      1970 - |days| ≤ (ofNumber days).year ∧ (ofNumber days).year ≤ 1970 + |days| := by
  rw [ofNumber]
  split_ifs with after
  · obtain ⟨valid, here, lower, upper⟩ := iterate_next days.toNat
    rw [abs_of_nonneg after]
    exact ⟨valid, by omega, by omega, by omega⟩
  · obtain ⟨valid, here, lower, upper⟩ := iterate_previous (-days).toNat
    rw [abs_of_neg (not_le.mp after)]
    exact ⟨valid, by omega, by omega, by omega⟩

end Date

end Etpan.Data
