import CppPlay.Calendar.CalendarDate

/-!
# A library that implements the calendar

The dates of the proleptic Gregorian calendar, with an error for each one that there is
not and for each year that is not supported, meet what is assumed of the external library.
-/

namespace CppPlay.Calendar

open CppPlay.Lib CppPlay.Lib.Gregorian CppPlay.Lib.Gregorian.Date

variable {d : Date}

/-- The date with these numbers, if there is one. -/
def dateOf (year month day : ℕ) : Except String Date :=
  if hmonth : 1 ≤ month ∧ month ≤ 12 then
    if hday : 1 ≤ day ∧ day ≤ daysInMonth year month then
      .ok ⟨year, month, day, hmonth.1, hmonth.2, hday.1, hday.2⟩
    else .error "Day of month is not valid for year"
  else .error "Month number is out of range 1..12"

theorem dateOf_ok (d : Date) : dateOf d.year d.month d.day = .ok d := by
  unfold dateOf
  rw [dif_pos ⟨d.month_pos, d.month_le⟩, dif_pos ⟨d.day_pos, d.day_le⟩]

def checkYear (d : Date) : Except String Date :=
  if Supported d then .ok d else .error "Year is out of valid range: 1400..9999"

theorem checkYear_ok (hd : Supported d) : checkYear d = .ok d := if_pos hd

def dateOfString (s : String) : Except String Date :=
  match s.toNat? with
  | some value => do checkYear (← dateOf (value / 10000) (value / 100 % 100) (value % 100))
  | none => .error "not a date"

theorem dateOfString_ok (hd : Supported d) : dateOfString (toString d.isoNumber) = .ok d := by
  have hmonth := d.month_le
  have hday := d.day_le_31
  have hyears : d.isoNumber / 10000 = d.year := by
    unfold isoNumber
    omega
  have hmonths : d.isoNumber / 100 % 100 = d.month := by
    unfold isoNumber
    omega
  have hdays : d.isoNumber % 100 = d.day := by
    unfold isoNumber
    omega
  rw [dateOfString, Nat.toString_eq_repr, Nat.toNat?_repr]
  show (do checkYear (← dateOf (d.isoNumber / 10000) (d.isoNumber / 100 % 100)
    (d.isoNumber % 100))) = .ok d
  rw [hyears, hmonths, hdays, bind_of_ok (dateOf_ok d), checkYear_ok hd]

/-- Years on, with the last day of a month kept the last one. -/
def yearsOn (d : Date) (count : ℕ) : Except String Date := do
  let last := daysInMonth (d.year + count) d.month
  checkYear (← dateOf (d.year + count) d.month
    (if d.IsEndOfMonth then last else min d.day last))

theorem yearsOn_ok {x : Date} (hx : Supported x) (hmonth : d.month ≠ 2)
    (hyear : x.year = d.year + 1) (hsame : x.month = d.month) (hday : x.day = d.day) :
    yearsOn d 1 = .ok x := by
  have hlength := daysInMonth_congr hmonth (d.year + 1) d.year
  have hkept : (if d.IsEndOfMonth then daysInMonth (d.year + 1) d.month
      else min d.day (daysInMonth (d.year + 1) d.month)) = x.day := by
    rw [hlength, hday]
    split_ifs with hlast
    · exact hlast.symm
    · exact min_eq_left d.day_le
  unfold yearsOn
  simp only [hkept]
  rw [← hyear, ← hsame, bind_of_ok (dateOf_ok x), checkYear_ok hx]

def prolepticGregorian : BoostGregorian where
  fromUndelimitedString := dateOfString
  toIsoString d := .ok (toString d.isoNumber)
  date year month day := do checkYear (← dateOf year month day)
  addDays d count := checkYear (d.addDays count)
  addYears := yearsOn
  endOfMonth d := .ok d.endOfMonth
  firstDayOfTheWeekAfter dayOfWeek d := checkYear (d.addDays (d.daysUntil dayOfWeek))
  fromUndelimitedString_ok _ := dateOfString_ok
  toIsoString_ok _ _ := rfl
  date_ok d hd := (bind_of_ok (dateOf_ok d) checkYear).trans (checkYear_ok hd)
  addDays_ok _ _ _ := checkYear_ok
  addYears_ok _ _ _ := yearsOn_ok
  endOfMonth_ok _ _ := rfl
  firstDayOfTheWeekAfter_ok _ _ _ _ := checkYear_ok

end CppPlay.Calendar
