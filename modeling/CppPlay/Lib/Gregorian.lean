import CppPlay.Lib.Enumeration
import Mathlib.Order.Iterate
import Mathlib.Tactic

/-!
# The proleptic Gregorian calendar

A date is a year with a month and a day that exist in it.  Dates are ordered as the
numbers that their year, month and day make up, and counting the days agrees with that
order.
-/

namespace CppPlay.Lib.Gregorian

def IsLeap (year : ℕ) : Prop := year % 4 = 0 ∧ (year % 100 ≠ 0 ∨ year % 400 = 0)

instance (year : ℕ) : Decidable (IsLeap year) := inferInstanceAs (Decidable (_ ∧ _))

def daysInMonth (year month : ℕ) : ℕ :=
  if month = 2 then (if IsLeap year then 29 else 28)
  else if month = 4 ∨ month = 6 ∨ month = 9 ∨ month = 11 then 30
  else 31

theorem daysInMonth_bounds (year month : ℕ) :
    28 ≤ daysInMonth year month ∧ daysInMonth year month ≤ 31 := by
  unfold daysInMonth
  split_ifs <;> omega

/-- Only the length of February depends on the year. -/
theorem daysInMonth_congr {month : ℕ} (hmonth : month ≠ 2) (year year' : ℕ) :
    daysInMonth year month = daysInMonth year' month := by
  unfold daysInMonth
  rw [if_neg hmonth, if_neg hmonth]

@[ext] structure Date where
  year : ℕ
  month : ℕ
  day : ℕ
  month_pos : 1 ≤ month
  month_le : month ≤ 12
  day_pos : 1 ≤ day
  day_le : day ≤ daysInMonth year month
  deriving DecidableEq

namespace Date

theorem day_le_31 (d : Date) : d.day ≤ 31 := d.day_le.trans (daysInMonth_bounds _ _).2

/-- The number with the digits yyyymmdd. -/
def isoNumber (d : Date) : ℕ := d.year * 10000 + d.month * 100 + d.day

theorem isoNumber_injective : Function.Injective isoNumber := by
  intro d x heq
  have hd := d.day_le_31
  have hx := x.day_le_31
  have hdm := d.month_le
  have hxm := x.month_le
  have hdp := d.day_pos
  have hxp := x.day_pos
  unfold isoNumber at heq
  ext <;> omega

instance : LinearOrder Date := LinearOrder.lift' isoNumber isoNumber_injective

theorem le_iff {d x : Date} : d ≤ x ↔ d.isoNumber ≤ x.isoNumber := Iff.rfl

theorem lt_iff {d x : Date} : d < x ↔ d.isoNumber < x.isoNumber := Iff.rfl

theorem lt_iff_lex {d x : Date} :
    d < x ↔ d.year < x.year ∨
      d.year = x.year ∧ (d.month < x.month ∨ d.month = x.month ∧ d.day < x.day) := by
  have hd := d.day_le_31
  have hx := x.day_le_31
  have hdm := d.month_le
  have hxm := x.month_le
  have hdp := d.day_pos
  have hxp := x.day_pos
  rw [lt_iff, isoNumber, isoNumber]
  omega

theorem year_le_of_le {d x : Date} (hle : d ≤ x) : d.year ≤ x.year := by
  rcases hle.eq_or_lt with rfl | hlt
  · exact le_rfl
  · rw [lt_iff_lex] at hlt
    omega

def withDay (d : Date) (day : ℕ) (hpos : 1 ≤ day) (hle : day ≤ daysInMonth d.year d.month) : Date :=
  ⟨d.year, d.month, day, d.month_pos, d.month_le, hpos, hle⟩

theorem one_le_daysInMonth (year month : ℕ) : 1 ≤ daysInMonth year month := by
  have hbounds := daysInMonth_bounds year month
  omega

def endOfMonth (d : Date) : Date :=
  d.withDay (daysInMonth d.year d.month) (one_le_daysInMonth _ _) le_rfl

def nextMonth (d : Date) : Date :=
  if hmonth : d.month < 12 then
    ⟨d.year, d.month + 1, 1, Nat.le_add_left 1 _, hmonth, le_rfl, one_le_daysInMonth _ _⟩
  else
    ⟨d.year + 1, 1, 1, le_rfl, Nat.le_add_left 1 11, le_rfl, one_le_daysInMonth _ _⟩

def succ (d : Date) : Date :=
  if hday : d.day < daysInMonth d.year d.month then
    d.withDay (d.day + 1) (Nat.le_add_left 1 _) hday
  else d.nextMonth

def addDays (d : Date) (count : ℕ) : Date := succ^[count] d

/-! ## Within a month and beyond it -/

theorem succ_of_lt {d : Date} (hday : d.day < daysInMonth d.year d.month) :
    d.succ = d.withDay (d.day + 1) (Nat.le_add_left 1 _) hday :=
  dif_pos hday

theorem succ_of_not_lt {d : Date} (hday : ¬ d.day < daysInMonth d.year d.month) :
    d.succ = d.nextMonth :=
  dif_neg hday

theorem succ_endOfMonth (d : Date) : d.endOfMonth.succ = d.nextMonth :=
  succ_of_not_lt (lt_irrefl _)

@[simp] theorem addDays_zero (d : Date) : d.addDays 0 = d := rfl

theorem addDays_succ (d : Date) (count : ℕ) : d.addDays (count + 1) = (d.addDays count).succ :=
  Function.iterate_succ_apply' succ count d

theorem addDays_add (d : Date) (first second : ℕ) :
    d.addDays (first + second) = (d.addDays first).addDays second := by
  unfold addDays
  rw [Nat.add_comm, Function.iterate_add_apply]

theorem addDays_within (d : Date) {count : ℕ}
    (hle : d.day + count ≤ daysInMonth d.year d.month) :
    d.addDays count = d.withDay (d.day + count) (Nat.le_add_right_of_le d.day_pos) hle := by
  induction count with
  | zero => rfl
  | succ count ih =>
      have hday : d.day + count < daysInMonth d.year d.month := by omega
      rw [addDays_succ, ih (by omega)]
      exact succ_of_lt hday

theorem addDays_endOfMonth (d : Date) (count : ℕ) :
    d.endOfMonth.addDays (count + 1) = d.nextMonth.addDays count := by
  rw [Nat.add_comm count 1, addDays_add, addDays_succ, addDays_zero, succ_endOfMonth]

/-- Dates from a day of a month on and before the next month are days of the month. -/
theorem month_eq_of_lt_nextMonth {d x : Date} (hle : d ≤ x) (hlt : x < d.nextMonth) :
    x.year = d.year ∧ x.month = d.month ∧ d.day ≤ x.day := by
  have hd := d.day_le_31
  have hx := x.day_le_31
  have hdm := d.month_le
  have hxm := x.month_le
  have hxp := x.day_pos
  have hxmp := x.month_pos
  rw [le_iff, isoNumber, isoNumber] at hle
  unfold nextMonth at hlt
  by_cases hmonth : d.month < 12
  · rw [dif_pos hmonth, lt_iff, isoNumber, isoNumber] at hlt
    simp only at hlt
    omega
  · rw [dif_neg hmonth, lt_iff, isoNumber, isoNumber] at hlt
    simp only at hlt
    omega

theorem lt_nextMonth (d : Date) : d < d.nextMonth := by
  have hd := d.day_le_31
  have hdm := d.month_le
  unfold nextMonth
  by_cases hmonth : d.month < 12
  · rw [dif_pos hmonth, lt_iff, isoNumber, isoNumber]
    simp only
    omega
  · rw [dif_neg hmonth, lt_iff, isoNumber, isoNumber]
    simp only
    omega

theorem nextMonth_le {d x : Date} (hlt : d < x) (hday : x.day ≤ d.day) : d.nextMonth ≤ x := by
  by_contra hbefore
  obtain ⟨hyear, hmonth, _⟩ := month_eq_of_lt_nextMonth hlt.le (not_le.mp hbefore)
  rw [lt_iff_lex] at hlt
  omega

/-! ## Counting the days -/

def daysInYear (year : ℕ) : ℕ := if IsLeap year then 366 else 365

/-- The days of all years before this one, the year 0 included. -/
def daysBeforeYear (year : ℕ) : ℕ :=
  365 * year + (year + 3) / 4 + (year + 399) / 400 - (year + 99) / 100

/-- Each number that the divisor divides makes one more multiple below what follows. -/
theorem add_pred_div_succ (divisor : ℕ) (hpos : 0 < divisor) (count : ℕ) :
    (count + 1 + (divisor - 1)) / divisor =
      (count + (divisor - 1)) / divisor + if count % divisor = 0 then 1 else 0 := by
  have hlast : count + (divisor - 1) + 1 = count + divisor := by omega
  rw [Nat.add_right_comm, Nat.succ_div, hlast]
  simp only [Nat.dvd_iff_mod_eq_zero, Nat.add_mod_right]

/-- A day is added for each fourth year, taken away for each century and added again for
each fourth century. -/
theorem daysInYear_add (year : ℕ) :
    daysInYear year + (if year % 100 = 0 then 1 else 0) =
      365 + (if year % 4 = 0 then 1 else 0) + (if year % 400 = 0 then 1 else 0) := by
  have hcentury : year % 100 = 0 → year % 4 = 0 := by omega
  have hcenturies : year % 400 = 0 → year % 100 = 0 := by omega
  unfold daysInYear
  by_cases hleap : IsLeap year
  · rw [if_pos hleap]
    unfold IsLeap at hleap
    split_ifs <;> omega
  · rw [if_neg hleap]
    unfold IsLeap at hleap
    split_ifs <;> omega

theorem daysBeforeYear_succ (year : ℕ) :
    daysBeforeYear (year + 1) = daysBeforeYear year + daysInYear year := by
  have hfour : (year + 1 + 3) / 4 = (year + 3) / 4 + if year % 4 = 0 then 1 else 0 :=
    add_pred_div_succ 4 (by decide) year
  have hcentury : (year + 1 + 99) / 100 = (year + 99) / 100 + if year % 100 = 0 then 1 else 0 :=
    add_pred_div_succ 100 (by decide) year
  have hcenturies :
      (year + 1 + 399) / 400 = (year + 399) / 400 + if year % 400 = 0 then 1 else 0 :=
    add_pred_div_succ 400 (by decide) year
  have hle : (year + 99) / 100 ≤ (year + 3) / 4 := by omega
  have hdays := daysInYear_add year
  unfold daysBeforeYear
  rw [hfour, hcentury, hcenturies]
  -- the quotients are opaque from here on
  generalize (year + 3) / 4 = fours at *
  generalize (year + 99) / 100 = centuries at *
  generalize (year + 399) / 400 = fourCenturies at *
  omega

def daysBeforeMonth (year : ℕ) : ℕ → ℕ
  | 0 => 0
  | 1 => 0
  | month + 2 => daysBeforeMonth year (month + 1) + daysInMonth year (month + 1)

theorem daysBeforeMonth_succ (year : ℕ) {month : ℕ} (hpos : 1 ≤ month) :
    daysBeforeMonth year (month + 1) = daysBeforeMonth year month + daysInMonth year month := by
  obtain ⟨month, rfl⟩ := Nat.exists_eq_add_of_le' hpos
  rfl

theorem daysBeforeMonth_twelve (year : ℕ) :
    daysBeforeMonth year 12 + daysInMonth year 12 = daysInYear year := by
  simp only [daysBeforeMonth, daysInMonth, daysInYear]
  by_cases hleap : IsLeap year <;> simp [hleap]

def dayNumber (d : Date) : ℕ :=
  daysBeforeYear d.year + daysBeforeMonth d.year d.month + d.day

theorem dayNumber_nextMonth (d : Date) :
    d.nextMonth.dayNumber = d.endOfMonth.dayNumber + 1 := by
  unfold nextMonth
  by_cases hmonth : d.month < 12
  · rw [dif_pos hmonth]
    simp only [dayNumber, endOfMonth, withDay, daysBeforeMonth_succ d.year d.month_pos]
    omega
  · have htwelve : d.month = 12 := le_antisymm d.month_le (not_lt.mp hmonth)
    have hyear := daysBeforeMonth_twelve d.year
    rw [dif_neg hmonth]
    simp only [dayNumber, endOfMonth, withDay, daysBeforeYear_succ, htwelve, daysBeforeMonth]
    simp only [daysBeforeMonth] at hyear
    omega

theorem dayNumber_succ (d : Date) : d.succ.dayNumber = d.dayNumber + 1 := by
  by_cases hday : d.day < daysInMonth d.year d.month
  · rw [succ_of_lt hday]
    rfl
  · have hlast : d = d.endOfMonth :=
      Date.ext rfl rfl (le_antisymm d.day_le (not_lt.mp hday))
    rw [succ_of_not_lt hday, dayNumber_nextMonth, ← hlast]

theorem dayNumber_addDays (d : Date) (count : ℕ) :
    (d.addDays count).dayNumber = d.dayNumber + count := by
  induction count with
  | zero => rfl
  | succ count ih => rw [addDays_succ, dayNumber_succ, ih, Nat.add_assoc]

theorem lt_succ (d : Date) : d < d.succ := by
  by_cases hday : d.day < daysInMonth d.year d.month
  · rw [succ_of_lt hday, lt_iff_lex]
    exact .inr ⟨rfl, .inr ⟨rfl, Nat.lt_succ_self _⟩⟩
  · rw [succ_of_not_lt hday]
    exact d.lt_nextMonth

theorem succ_le_of_lt {d x : Date} (hlt : d < x) : d.succ ≤ x := by
  by_contra hnot
  rw [not_le] at hnot
  by_cases hday : d.day < daysInMonth d.year d.month
  · rw [succ_of_lt hday] at hnot
    rw [lt_iff_lex] at hlt hnot
    simp only [withDay] at hnot
    omega
  · rw [succ_of_not_lt hday] at hnot
    obtain ⟨hyear, hmonth, _⟩ := month_eq_of_lt_nextMonth hlt.le hnot
    have hlast := x.day_le
    rw [hyear, hmonth] at hlast
    rw [lt_iff_lex] at hlt
    omega

theorem lt_iff_succ_le {d x : Date} : d < x ↔ d.succ ≤ x :=
  ⟨succ_le_of_lt, d.lt_succ.trans_le⟩

theorem dayNumber_strictMono : StrictMono dayNumber := by
  intro d x hlt
  -- by induction on how far the numbers of the two dates are apart
  induction hgap : x.isoNumber - d.isoNumber using Nat.strong_induction_on generalizing d with
  | _ gap ih =>
      rcases (succ_le_of_lt hlt).eq_or_lt with heq | hless
      · rw [← heq, dayNumber_succ]
        exact Nat.lt_succ_self _
      · have hbefore : d.isoNumber < d.succ.isoNumber := lt_iff.mp d.lt_succ
        have hafter : d.succ.isoNumber < x.isoNumber := lt_iff.mp hless
        have hrest := ih (x.isoNumber - d.succ.isoNumber) (by omega) hless rfl
        rw [dayNumber_succ] at hrest
        omega

theorem lt_iff_dayNumber {d x : Date} : d < x ↔ d.dayNumber < x.dayNumber :=
  dayNumber_strictMono.lt_iff_lt.symm

theorem le_iff_dayNumber {d x : Date} : d ≤ x ↔ d.dayNumber ≤ x.dayNumber :=
  dayNumber_strictMono.le_iff_le.symm

/-! ## Days of the week -/

/-- Sunday is 0. -/
def dayOfWeek (d : Date) : ℕ := (d.dayNumber + 5) % 7

example : dayOfWeek ⟨2020, 4, 20, by decide, by decide, by decide, by decide⟩ = 1 := by decide

/-- How many days after `d` the given day of the week comes next. -/
def daysUntil (d : Date) (dayOfWeek : ℕ) : ℕ := (dayOfWeek + 6 - d.dayOfWeek) % 7 + 1

theorem dayOfWeek_addDays_daysUntil (d : Date) {dayOfWeek : ℕ} (hday : dayOfWeek < 7) :
    (d.addDays (d.daysUntil dayOfWeek)).dayOfWeek = dayOfWeek := by
  rw [Date.dayOfWeek, dayNumber_addDays]
  unfold daysUntil Date.dayOfWeek
  omega

theorem daysUntil_dayOfWeek (d : Date) : d.daysUntil d.dayOfWeek = 7 := by
  unfold daysUntil
  omega

theorem daysUntil_le {d x : Date} (hlt : d < x) :
    d.daysUntil x.dayOfWeek ≤ x.dayNumber - d.dayNumber := by
  rw [lt_iff_dayNumber] at hlt
  unfold daysUntil dayOfWeek
  omega

theorem isNext_dayOfWeek (d : Date) {dayOfWeek : ℕ} (hday : dayOfWeek < 7) :
    IsNext (fun x : Date => x.dayOfWeek = dayOfWeek) d (d.addDays (d.daysUntil dayOfWeek)) := by
  constructor
  · refine ⟨d.dayOfWeek_addDays_daysUntil hday, ?_⟩
    rw [lt_iff_dayNumber, dayNumber_addDays]
    unfold daysUntil
    omega
  · rintro x ⟨rfl, hlt⟩
    have hle := daysUntil_le hlt
    rw [lt_iff_dayNumber] at hlt
    rw [le_iff_dayNumber, dayNumber_addDays]
    omega

/-! ## Ends of months and years -/

theorem isNext_nextMonth (d : Date) : IsNext (fun x : Date => x.day = 1) d d.nextMonth := by
  constructor
  · refine ⟨?_, d.lt_nextMonth⟩
    unfold nextMonth
    by_cases hmonth : d.month < 12 <;> simp [hmonth]
  · rintro x ⟨hx, hlt⟩
    apply nextMonth_le hlt
    rw [hx]
    exact d.day_pos

theorem nextMonth_day (d : Date) : d.nextMonth.day = 1 := d.isNext_nextMonth.1.1

/-- The months of a year are counted on through its quarters. -/
theorem nextMonth_month_mod (d : Date) : d.nextMonth.month % 3 = (d.month + 1) % 3 := by
  unfold nextMonth
  by_cases hmonth : d.month < 12
  · rw [dif_pos hmonth]
  · have htwelve : d.month = 12 := le_antisymm d.month_le (not_lt.mp hmonth)
    rw [dif_neg hmonth, htwelve]
    show 1 % 3 = (12 + 1) % 3
    decide

/-- What comes next after a date is what is first from the following day on. -/
theorem isNext_of_isFirst_succ {P : Date → Prop} {d r : Date} (hfirst : IsFirst P d.succ r) :
    IsNext P d r :=
  ⟨⟨hfirst.1.1, lt_iff_succ_le.mpr hfirst.1.2⟩,
    fun _ hx => hfirst.2 ⟨hx.1, lt_iff_succ_le.mp hx.2⟩⟩

def IsEndOfMonth (d : Date) : Prop := d.day = daysInMonth d.year d.month

instance (d : Date) : Decidable d.IsEndOfMonth := inferInstanceAs (Decidable (_ = _))

theorem isEndOfMonth_endOfMonth (d : Date) : d.endOfMonth.IsEndOfMonth := rfl

theorem le_endOfMonth (d : Date) : d ≤ d.endOfMonth := by
  rw [le_iff, isoNumber, isoNumber]
  exact Nat.add_le_add_left d.day_le _

theorem endOfMonth_lt_nextMonth (d : Date) : d.endOfMonth < d.nextMonth := by
  rw [← succ_endOfMonth]
  exact d.endOfMonth.lt_succ

theorem isFirst_endOfMonth (d : Date) : IsFirst IsEndOfMonth d d.endOfMonth := by
  refine ⟨⟨d.isEndOfMonth_endOfMonth, d.le_endOfMonth⟩, ?_⟩
  rintro x ⟨hx, hle⟩
  by_contra hbefore
  rw [not_le] at hbefore
  obtain ⟨hyear, hmonth, _⟩ :=
    month_eq_of_lt_nextMonth hle (hbefore.trans d.endOfMonth_lt_nextMonth)
  unfold IsEndOfMonth at hx
  rw [hyear, hmonth] at hx
  rw [lt_iff_lex] at hbefore
  simp only [endOfMonth, withDay] at hbefore
  omega

theorem endOfMonth_eq_iff {d : Date} : d.endOfMonth = d ↔ d.IsEndOfMonth := by
  constructor
  · intro heq
    exact heq ▸ d.isEndOfMonth_endOfMonth
  · intro hd
    exact Date.ext rfl rfl hd.symm

theorem succ_of_isEndOfMonth {d : Date} (hd : d.IsEndOfMonth) : d.succ = d.nextMonth :=
  succ_of_not_lt (Eq.not_lt hd)

def firstOfYear (year : ℕ) : Date :=
  ⟨year, 1, 1, le_rfl, Nat.le_add_left 1 11, le_rfl, one_le_daysInMonth _ _⟩

theorem le_daysInMonth_december (year : ℕ) : 31 ≤ daysInMonth year 12 := le_rfl

def lastOfYear (year : ℕ) : Date :=
  ⟨year, 12, 31, Nat.le_add_left 1 11, le_rfl, Nat.le_add_left 1 30, le_daysInMonth_december year⟩

end Date

end CppPlay.Lib.Gregorian
