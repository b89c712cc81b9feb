import Mathlib
import CppPlay.Lib.Gregorian

/-!
# The calendar dates of a rule

`firstCalendarDate` and `nextCalendarDate` take and give dates as numbers yyyymmdd and
compute with the dates of the external calendar library in between.  There is one
function of each for every rule; the rules of the quarters go through the months.
-/

namespace CppPlay.Calendar

open CppPlay.Lib CppPlay.Lib.Gregorian

/-- The years that the external library has dates of. -/
def Supported (d : Date) : Prop := 1400 ≤ d.year ∧ d.year ≤ 9999

instance (d : Date) : Decidable (Supported d) := inferInstanceAs (Decidable (_ ∧ _))

/-- The functions of the external library, which implement the proleptic Gregorian
calendar as long as their results are dates of the years that it supports. -/
structure BoostGregorian where
  fromUndelimitedString : String → Except String Date
  toIsoString : Date → Except String String
  date : ℕ → ℕ → ℕ → Except String Date
  addDays : Date → ℕ → Except String Date
  addYears : Date → ℕ → Except String Date
  endOfMonth : Date → Except String Date
  firstDayOfTheWeekAfter : ℕ → Date → Except String Date
  fromUndelimitedString_ok : ∀ d, Supported d →
    fromUndelimitedString (toString d.isoNumber) = .ok d
  toIsoString_ok : ∀ d, Supported d → toIsoString d = .ok (toString d.isoNumber)
  date_ok : ∀ d, Supported d → date d.year d.month d.day = .ok d
  addDays_ok : ∀ d count, Supported d → Supported (d.addDays count) →
    addDays d count = .ok (d.addDays count)
  addYears_ok : ∀ d x, Supported d → Supported x → d.month ≠ 2 → x.year = d.year + 1 →
    x.month = d.month → x.day = d.day → addYears d 1 = .ok x
  endOfMonth_ok : ∀ d, Supported d → endOfMonth d = .ok d.endOfMonth
  firstDayOfTheWeekAfter_ok : ∀ d dayOfWeek, dayOfWeek < 7 → Supported d →
    Supported (d.addDays (d.daysUntil dayOfWeek)) →
    firstDayOfTheWeekAfter dayOfWeek d = .ok (d.addDays (d.daysUntil dayOfWeek))

theorem bind_of_ok {α β : Type} {action : Except String α} {value : α}
    (haction : action = .ok value) (rest : α → Except String β) :
    action >>= rest = rest value := by
  rw [haction]
  rfl

def stoi (s : String) : Except String ℕ :=
  match s.toNat? with
  | some value => if value < 2 ^ 31 then .ok value else .error "stoi: out of range"
  | none => .error "stoi: invalid argument"

/-- The instances of `TimeDurationRule` that the functions are declared for. -/
inductive TimeDurationRule where
  | weekBegin | weekEnd
  | biMonthBegin | biMonthEnd
  | monthBegin | monthEnd
  | quarterBegin | quarterEnd
  | yearBegin | yearEnd
  deriving DecidableEq

section Source

variable (gd : BoostGregorian)

/-- `std::stoi(to_iso_string(d))`. -/
def toUnsigned (d : Date) : Except String ℕ := do
  stoi (← gd.toIsoString d)

def parse (fromDate : ℕ) : Except String Date :=
  gd.fromUndelimitedString (toString fromDate)

/-! ### Weeks -/

def firstCalendarDateWeek (dayOfWeek fromDate : ℕ) : Except String ℕ := do
  let d ← parse gd fromDate
  if d.dayOfWeek = dayOfWeek then toUnsigned gd d
  else toUnsigned gd (← gd.firstDayOfTheWeekAfter dayOfWeek d)

def nextCalendarDateWeek (fromDate : ℕ) : Except String ℕ := do
  let d ← parse gd fromDate
  toUnsigned gd (← gd.addDays d 7)

def firstCalendarDateWeekBegin : ℕ → Except String ℕ := firstCalendarDateWeek gd 1

def nextCalendarDateWeekBegin : ℕ → Except String ℕ := nextCalendarDateWeek gd

def firstCalendarDateWeekEnd : ℕ → Except String ℕ := firstCalendarDateWeek gd 5

def nextCalendarDateWeekEnd : ℕ → Except String ℕ := nextCalendarDateWeek gd

/-! ### Half months -/

def firstCalendarDateBiMonthBegin (fromDate : ℕ) : Except String ℕ := do
  let d ← parse gd fromDate
  if d.day = 1 ∨ d.day = 15 then return fromDate
  else if d.day < 15 then toUnsigned gd (← gd.addDays d (15 - d.day))
  else toUnsigned gd (← gd.addDays (← gd.endOfMonth d) 1)

def nextCalendarDateBiMonthBegin (fromDate : ℕ) : Except String ℕ := do
  let d ← parse gd fromDate
  if d.day = 1 then toUnsigned gd (← gd.addDays d 14)
  else toUnsigned gd (← gd.addDays (← gd.endOfMonth d) 1)

def firstCalendarDateBiMonthEnd (fromDate : ℕ) : Except String ℕ := do
  let d ← parse gd fromDate
  let lday := (← gd.endOfMonth d).day
  if d.day = 15 ∨ d.day = lday then return fromDate
  else if d.day < 15 then toUnsigned gd (← gd.addDays d (15 - d.day))
  else toUnsigned gd (← gd.endOfMonth d)

def nextCalendarDateBiMonthEnd (fromDate : ℕ) : Except String ℕ := do
  let d ← parse gd fromDate
  if d.day = 15 then toUnsigned gd (← gd.endOfMonth d)
  else toUnsigned gd (← gd.addDays d 15)

/-! ### Months -/

def firstCalendarDateMonthBegin (fromDate : ℕ) : Except String ℕ := do
  let d ← parse gd fromDate
  if d.day = 1 then toUnsigned gd d
  else toUnsigned gd (← gd.addDays (← gd.endOfMonth d) 1)

def nextCalendarDateMonthBegin (fromDate : ℕ) : Except String ℕ := do
  let d ← parse gd fromDate
  toUnsigned gd (← gd.addDays (← gd.endOfMonth d) 1)

def firstCalendarDateMonthEnd (fromDate : ℕ) : Except String ℕ := do
  let d ← parse gd fromDate
  toUnsigned gd (← gd.endOfMonth d)

def nextCalendarDateMonthEnd (fromDate : ℕ) : Except String ℕ := do
  let d ← parse gd fromDate
  toUnsigned gd (← gd.endOfMonth (← gd.addDays (← gd.endOfMonth d) 1))

/-! ### Quarters -/

def isQuarterBegin (dt : ℕ) : Except String Bool := do
  let d ← parse gd dt
  return d.day = 1 ∧ (d.month = 1 ∨ d.month = 4 ∨ d.month = 7 ∨ d.month = 10)

def isQuarterEnd (dt : ℕ) : Except String Bool := do
  let d ← parse gd dt
  return d = (← gd.endOfMonth d) ∧ (d.month = 3 ∨ d.month = 6 ∨ d.month = 9 ∨ d.month = 12)

def coddingError : String := "Codding error in getting CalendarDate "

/-- The loop of the quarters, which has `remaining` of its four rounds left and throws in
the last one. -/
def quarterLoop (isQuarter : ℕ → Except String Bool) (next : ℕ → Except String ℕ) :
    ℕ → ℕ → Except String ℕ
  | 0, date => .ok date
  | remaining + 1, date => do
      if ← isQuarter date then return date
      else if remaining = 0 then throw coddingError
      else quarterLoop isQuarter next remaining (← next date)

def firstCalendarDateQuarterBegin (fromDate : ℕ) : Except String ℕ := do
  let date ← firstCalendarDateMonthBegin gd fromDate
  quarterLoop (isQuarterBegin gd) (nextCalendarDateMonthBegin gd) 4 date

def nextCalendarDateQuarterBegin (fromDate : ℕ) : Except String ℕ := do
  let date ← nextCalendarDateMonthBegin gd fromDate
  quarterLoop (isQuarterBegin gd) (nextCalendarDateMonthBegin gd) 4 date

def firstCalendarDateQuarterEnd (fromDate : ℕ) : Except String ℕ := do
  let date ← firstCalendarDateMonthEnd gd fromDate
  quarterLoop (isQuarterEnd gd) (nextCalendarDateMonthEnd gd) 4 date

def nextCalendarDateQuarterEnd (fromDate : ℕ) : Except String ℕ := do
  let date ← nextCalendarDateMonthEnd gd fromDate
  quarterLoop (isQuarterEnd gd) (nextCalendarDateMonthEnd gd) 4 date

/-! ### Years -/

def firstCalendarDateYearBegin (fromDate : ℕ) : Except String ℕ := do
  let d ← parse gd fromDate
  if d.day = 1 ∧ d.month = 1 then toUnsigned gd d
  else toUnsigned gd (← gd.addYears (← gd.date d.year 1 1) 1)

def nextCalendarDateYearBegin (fromDate : ℕ) : Except String ℕ := do
  let d ← parse gd fromDate
  toUnsigned gd (← gd.addYears d 1)

def firstCalendarDateYearEnd (fromDate : ℕ) : Except String ℕ := do
  let d ← parse gd fromDate
  toUnsigned gd (← gd.date d.year 12 31)

def nextCalendarDateYearEnd (fromDate : ℕ) : Except String ℕ := do
  let d ← parse gd fromDate
  toUnsigned gd (← gd.addYears (← gd.date d.year 12 31) 1)

/-! ### The overloads -/

def firstCalendarDate : TimeDurationRule → ℕ → Except String ℕ
  | .weekBegin => firstCalendarDateWeekBegin gd
  | .weekEnd => firstCalendarDateWeekEnd gd
  | .biMonthBegin => firstCalendarDateBiMonthBegin gd
  | .biMonthEnd => firstCalendarDateBiMonthEnd gd
  | .monthBegin => firstCalendarDateMonthBegin gd
  | .monthEnd => firstCalendarDateMonthEnd gd
  | .quarterBegin => firstCalendarDateQuarterBegin gd
  | .quarterEnd => firstCalendarDateQuarterEnd gd
  | .yearBegin => firstCalendarDateYearBegin gd
  | .yearEnd => firstCalendarDateYearEnd gd

def nextCalendarDate : TimeDurationRule → ℕ → Except String ℕ
  | .weekBegin => nextCalendarDateWeekBegin gd
  | .weekEnd => nextCalendarDateWeekEnd gd
  | .biMonthBegin => nextCalendarDateBiMonthBegin gd
  | .biMonthEnd => nextCalendarDateBiMonthEnd gd
  | .monthBegin => nextCalendarDateMonthBegin gd
  | .monthEnd => nextCalendarDateMonthEnd gd
  | .quarterBegin => nextCalendarDateQuarterBegin gd
  | .quarterEnd => nextCalendarDateQuarterEnd gd
  | .yearBegin => nextCalendarDateYearBegin gd
  | .yearEnd => nextCalendarDateYearEnd gd

/-- The date with index `i` of those that a caller gets by `firstCalendarDate` and then
`nextCalendarDate` again and again. -/
def calendarDate (rule : TimeDurationRule) (fromDate : ℕ) : ℕ → Except String ℕ
  | 0 => firstCalendarDate gd rule fromDate
  | i + 1 => do nextCalendarDate gd rule (← calendarDate rule fromDate i)

end Source

/-! ## The dates of a rule -/

namespace TimeDurationRule

def IsDate : TimeDurationRule → Date → Prop
  | weekBegin, d => d.dayOfWeek = 1
  | weekEnd, d => d.dayOfWeek = 5
  | biMonthBegin, d => d.day = 1 ∨ d.day = 15
  | biMonthEnd, d => d.day = 15 ∨ d.IsEndOfMonth
  | monthBegin, d => d.day = 1
  | monthEnd, d => d.IsEndOfMonth
  | quarterBegin, d => d.day = 1 ∧ d.month % 3 = 1
  | quarterEnd, d => d.IsEndOfMonth ∧ d.month % 3 = 0
  | yearBegin, d => d.day = 1 ∧ d.month = 1
  | yearEnd, d => d.day = 31 ∧ d.month = 12

end TimeDurationRule

end CppPlay.Calendar
