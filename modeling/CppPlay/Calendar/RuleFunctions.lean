import CppPlay.Calendar.RuleDates

/-!
# The functions compute the dates of the rules

Rule by rule, the first function gives the least date of the rule from a date on and the
next one the least after a date of the rule, whenever that date is supported.
-/

namespace CppPlay.Calendar

open CppPlay.Lib CppPlay.Lib.Gregorian CppPlay.Lib.Gregorian.Date

variable (gd : BoostGregorian) {d r : Date}

/-! ## The external library -/

theorem parse_ok (hd : Supported d) : parse gd d.isoNumber = .ok d :=
  gd.fromUndelimitedString_ok d hd

theorem toUnsigned_ok (hd : Supported d) : toUnsigned gd d = .ok d.isoNumber := by
  have hyear := hd.2
  have hmonth := d.month_le
  have hday := d.day_le_31
  have hrange : d.isoNumber < 2 ^ 31 := by
    unfold isoNumber
    omega
  rw [toUnsigned, bind_of_ok (gd.toIsoString_ok d hd), stoi, Nat.toString_eq_repr,
    Nat.toNat?_repr]
  exact if_pos hrange

theorem addDays_eq_ok {count : ℕ} (hd : Supported d) (hr : Supported r)
    (hsum : d.addDays count = r) : gd.addDays d count = .ok r := by
  subst hsum
  exact gd.addDays_ok d count hd hr

theorem addDays_one_endOfMonth (hd : Supported d) (hnext : Supported d.nextMonth) :
    gd.addDays d.endOfMonth 1 = .ok d.nextMonth :=
  addDays_eq_ok gd hd hnext (d.addDays_endOfMonth 0)

/-! ## Weeks -/

section Week

variable {dayOfWeek : ℕ}

theorem firstCalendarDateWeek_ok (hday : dayOfWeek < 7) (hd : Supported d) (hr : Supported r)
    (hfirst : IsFirst (fun x : Date => x.dayOfWeek = dayOfWeek) d r) :
    firstCalendarDateWeek gd dayOfWeek d.isoNumber = .ok r.isoNumber := by
  rw [firstCalendarDateWeek, bind_of_ok (parse_ok gd hd)]
  by_cases hself : d.dayOfWeek = dayOfWeek
  · obtain rfl := hfirst.unique (isFirst_self hself)
    rw [if_pos hself, toUnsigned_ok gd hd]
  · obtain rfl := hfirst.unique (isFirst_of_isNext hself (d.isNext_dayOfWeek hday))
    rw [if_neg hself, bind_of_ok (gd.firstDayOfTheWeekAfter_ok d dayOfWeek hday hd hr),
      toUnsigned_ok gd hr]

theorem nextCalendarDateWeek_ok (hday : dayOfWeek < 7) (hd : Supported d) (hr : Supported r)
    (hdate : d.dayOfWeek = dayOfWeek)
    (hnext : IsNext (fun x : Date => x.dayOfWeek = dayOfWeek) d r) :
    nextCalendarDateWeek gd d.isoNumber = .ok r.isoNumber := by
  have hweek : d.addDays 7 = r := by
    rw [← d.daysUntil_dayOfWeek, hdate]
    exact (d.isNext_dayOfWeek hday).unique hnext
  rw [nextCalendarDateWeek, bind_of_ok (parse_ok gd hd),
    bind_of_ok (addDays_eq_ok gd hd hr hweek), toUnsigned_ok gd hr]

end Week

/-! ## Half months -/

theorem firstCalendarDateBiMonthBegin_ok (hd : Supported d) (hr : Supported r)
    (hfirst : IsFirst TimeDurationRule.biMonthBegin.IsDate d r) :
    firstCalendarDateBiMonthBegin gd d.isoNumber = .ok r.isoNumber := by
  rw [firstCalendarDateBiMonthBegin, bind_of_ok (parse_ok gd hd)]
  by_cases hself : d.day = 1 ∨ d.day = 15
  · obtain rfl := hfirst.unique (isFirst_self (P := TimeDurationRule.biMonthBegin.IsDate) hself)
    rw [if_pos hself]
    rfl
  · rw [if_neg hself]
    by_cases hhalf : d.day < 15
    · obtain rfl := hfirst.unique (isFirst_of_isNext hself (isNext_biMonthBegin_firstHalf hhalf))
      rw [if_pos hhalf, bind_of_ok (addDays_eq_ok gd hd hr (addDays_fifteenth hhalf.le)),
        toUnsigned_ok gd hr]
    · obtain rfl := hfirst.unique
        (isFirst_of_isNext hself (isNext_biMonthBegin_secondHalf (not_lt.mp hhalf)))
      rw [if_neg hhalf, bind_of_ok (gd.endOfMonth_ok d hd),
        bind_of_ok (addDays_one_endOfMonth gd hd hr), toUnsigned_ok gd hr]

theorem nextCalendarDateBiMonthBegin_ok (hd : Supported d) (hr : Supported r)
    (hdate : TimeDurationRule.biMonthBegin.IsDate d)
    (hnext : IsNext TimeDurationRule.biMonthBegin.IsDate d r) :
    nextCalendarDateBiMonthBegin gd d.isoNumber = .ok r.isoNumber := by
  rw [nextCalendarDateBiMonthBegin, bind_of_ok (parse_ok gd hd)]
  by_cases hbegin : d.day = 1
  · have hhalf : d.day < 15 := by omega
    have hdays : d.addDays 14 = fifteenth d := by
      rw [← addDays_fifteenth hhalf.le, hbegin]
    obtain rfl := hnext.unique (isNext_biMonthBegin_firstHalf hhalf)
    rw [if_pos hbegin, bind_of_ok (addDays_eq_ok gd hd hr hdays), toUnsigned_ok gd hr]
  · have hhalf : 15 ≤ d.day := (hdate.resolve_left hbegin).ge
    obtain rfl := hnext.unique (isNext_biMonthBegin_secondHalf hhalf)
    rw [if_neg hbegin, bind_of_ok (gd.endOfMonth_ok d hd),
      bind_of_ok (addDays_one_endOfMonth gd hd hr), toUnsigned_ok gd hr]

theorem firstCalendarDateBiMonthEnd_ok (hd : Supported d) (hr : Supported r)
    (hfirst : IsFirst TimeDurationRule.biMonthEnd.IsDate d r) :
    firstCalendarDateBiMonthEnd gd d.isoNumber = .ok r.isoNumber := by
  rw [firstCalendarDateBiMonthEnd, bind_of_ok (parse_ok gd hd),
    bind_of_ok (gd.endOfMonth_ok d hd)]
  by_cases hself : d.day = 15 ∨ d.day = d.endOfMonth.day
  · obtain rfl := hfirst.unique (isFirst_self (P := TimeDurationRule.biMonthEnd.IsDate) hself)
    rw [if_pos hself]
    rfl
  · rw [if_neg hself]
    by_cases hhalf : d.day < 15
    · obtain rfl := hfirst.unique (isFirst_of_isNext hself (isNext_biMonthEnd_firstHalf hhalf))
      rw [if_pos hhalf, bind_of_ok (addDays_eq_ok gd hd hr (addDays_fifteenth hhalf.le)),
        toUnsigned_ok gd hr]
    · have hlast : ¬ d.IsEndOfMonth := fun hlast => hself (.inr hlast)
      obtain rfl := hfirst.unique
        (isFirst_of_isNext hself (isNext_biMonthEnd_secondHalf (not_lt.mp hhalf) hlast))
      rw [if_neg hhalf, bind_of_ok (gd.endOfMonth_ok d hd), toUnsigned_ok gd hr]

theorem addDays_biMonthEnd (hlast : d.IsEndOfMonth) :
    d.addDays 15 = fifteenth d.nextMonth := by
  have hday := d.nextMonth_day
  have hrest := addDays_fifteenth (d := d.nextMonth) (by omega)
  rw [hday] at hrest
  rw [← hrest, ← d.addDays_endOfMonth 14, endOfMonth_eq_iff.mpr hlast]

theorem nextCalendarDateBiMonthEnd_ok (hd : Supported d) (hr : Supported r)
    (hdate : TimeDurationRule.biMonthEnd.IsDate d)
    (hnext : IsNext TimeDurationRule.biMonthEnd.IsDate d r) :
    nextCalendarDateBiMonthEnd gd d.isoNumber = .ok r.isoNumber := by
  rw [nextCalendarDateBiMonthEnd, bind_of_ok (parse_ok gd hd)]
  by_cases hhalf : d.day = 15
  · have hlast : ¬ d.IsEndOfMonth := by
      have hbounds := daysInMonth_bounds d.year d.month
      unfold IsEndOfMonth
      omega
    obtain rfl := hnext.unique (isNext_biMonthEnd_secondHalf hhalf.ge hlast)
    rw [if_pos hhalf, bind_of_ok (gd.endOfMonth_ok d hd), toUnsigned_ok gd hr]
  · have hlast : d.IsEndOfMonth := hdate.resolve_left hhalf
    obtain rfl := hnext.unique (isNext_biMonthEnd_last hlast)
    rw [if_neg hhalf, bind_of_ok (addDays_eq_ok gd hd hr (addDays_biMonthEnd hlast)),
      toUnsigned_ok gd hr]

/-! ## Months -/

theorem firstCalendarDateMonthBegin_ok (hd : Supported d) (hr : Supported r)
    (hfirst : IsFirst TimeDurationRule.monthBegin.IsDate d r) :
    firstCalendarDateMonthBegin gd d.isoNumber = .ok r.isoNumber := by
  rw [firstCalendarDateMonthBegin, bind_of_ok (parse_ok gd hd)]
  by_cases hself : d.day = 1
  · obtain rfl := hfirst.unique (isFirst_self (P := TimeDurationRule.monthBegin.IsDate) hself)
    rw [if_pos hself, toUnsigned_ok gd hd]
  · obtain rfl := hfirst.unique (isFirst_of_isNext hself d.isNext_nextMonth)
    rw [if_neg hself, bind_of_ok (gd.endOfMonth_ok d hd),
      bind_of_ok (addDays_one_endOfMonth gd hd hr), toUnsigned_ok gd hr]

theorem nextCalendarDateMonthBegin_ok (hd : Supported d) (hr : Supported r)
    (hnext : IsNext TimeDurationRule.monthBegin.IsDate d r) :
    nextCalendarDateMonthBegin gd d.isoNumber = .ok r.isoNumber := by
  obtain rfl := hnext.unique d.isNext_nextMonth
  rw [nextCalendarDateMonthBegin, bind_of_ok (parse_ok gd hd),
    bind_of_ok (gd.endOfMonth_ok d hd), bind_of_ok (addDays_one_endOfMonth gd hd hr),
    toUnsigned_ok gd hr]

theorem firstCalendarDateMonthEnd_ok (hd : Supported d) (hr : Supported r)
    (hfirst : IsFirst TimeDurationRule.monthEnd.IsDate d r) :
    firstCalendarDateMonthEnd gd d.isoNumber = .ok r.isoNumber := by
  obtain rfl := hfirst.unique d.isFirst_endOfMonth
  rw [firstCalendarDateMonthEnd, bind_of_ok (parse_ok gd hd),
    bind_of_ok (gd.endOfMonth_ok d hd), toUnsigned_ok gd hr]

theorem nextCalendarDateMonthEnd_eq (hd : Supported d) (hr : Supported d.nextMonth) :
    nextCalendarDateMonthEnd gd d.isoNumber = .ok d.nextMonth.endOfMonth.isoNumber := by
  rw [nextCalendarDateMonthEnd, bind_of_ok (parse_ok gd hd),
    bind_of_ok (gd.endOfMonth_ok d hd), bind_of_ok (addDays_one_endOfMonth gd hd hr),
    bind_of_ok (gd.endOfMonth_ok _ hr)]
  exact toUnsigned_ok gd hr

theorem nextCalendarDateMonthEnd_ok (hd : Supported d) (hr : Supported r)
    (hdate : TimeDurationRule.monthEnd.IsDate d)
    (hnext : IsNext TimeDurationRule.monthEnd.IsDate d r) :
    nextCalendarDateMonthEnd gd d.isoNumber = .ok r.isoNumber := by
  obtain rfl := hnext.unique (isNext_monthEnd hdate)
  exact nextCalendarDateMonthEnd_eq gd hd hr

/-! ## Quarters -/

section Quarter

/-- How many months after the month of `d` one with the given remainder comes. -/
def monthsUntil (remainder : ℕ) (d : Date) : ℕ := (remainder + 12 - d.month) % 3

theorem monthsUntil_lt (remainder : ℕ) (d : Date) : monthsUntil remainder d < 3 :=
  Nat.mod_lt _ (by decide)

theorem monthsUntil_nextMonth {remainder : ℕ} (hwait : monthsUntil remainder d ≠ 0) :
    monthsUntil remainder d.nextMonth < monthsUntil remainder d := by
  have hmod := d.nextMonth_month_mod
  have hmonth := d.month_le
  have hnext := d.nextMonth.month_le
  unfold monthsUntil at *
  omega

theorem month_mod_of_monthsUntil {remainder : ℕ} (hlt : remainder < 3)
    (hzero : monthsUntil remainder d = 0) : d.month % 3 = remainder := by
  have hmonth := d.month_le
  unfold monthsUntil at hzero
  omega

variable {isQuarter : ℕ → Except String Bool} {next : ℕ → Except String ℕ}
  {P Q : Date → Prop} [DecidablePred Q]

/-- The loop finds the first date of the quarters if the months that it has to go on are
fewer than its rounds. -/
theorem quarterLoop_ok (wait : Date → ℕ) (hsub : ∀ x, Q x → P x)
    (hquarter : ∀ x, Supported x → isQuarter x.isoNumber = .ok (decide (Q x)))
    (hnext : ∀ x y, Supported x → Supported y → P x → IsNext P x y →
      next x.isoNumber = .ok y.isoNumber)
    (hwait : ∀ x y, P x → IsNext P x y → ¬ Q x → wait y < wait x)
    {remaining : ℕ} {a : Date} (hfew : wait a < remaining) (ha : Supported a) (hr : Supported r)
    (hdate : P a) (hfirst : IsFirst Q a r) :
    quarterLoop isQuarter next remaining a.isoNumber = .ok r.isoNumber := by
  induction remaining generalizing a with
  | zero => exact absurd hfew (Nat.not_lt_zero _)
  | succ remaining ih =>
      rw [quarterLoop, bind_of_ok (hquarter a ha)]
      by_cases hself : Q a
      · obtain rfl := hfirst.unique (isFirst_self hself)
        rw [if_pos (decide_eq_true hself)]
        rfl
      · have hlater := isNext_of_isFirst hself hfirst
        obtain ⟨b, hb, hbr⟩ :=
          exists_isNext dayNumber_strictMono (hsub r hlater.1.1) hlater.1.2
        have hbwait := hwait a b hdate hb hself
        have hbsupported := ha.of_between hr hb.1.2.le hbr
        have hround : remaining ≠ 0 := by omega
        have hgoOn : decide (Q a) ≠ true := by
          intro htrue
          exact hself (of_decide_eq_true htrue)
        rw [if_neg hgoOn, if_neg hround, bind_of_ok (hnext a b ha hbsupported hdate hb)]
        exact ih (by omega) hbsupported hb.1.1 (hlater.from_isNext hsub hb)

end Quarter

theorem isQuarterBegin_ok (hd : Supported d) :
    isQuarterBegin gd d.isoNumber = .ok (decide (d.day = 1 ∧ d.month % 3 = 1)) := by
  have hmonth : (d.month = 1 ∨ d.month = 4 ∨ d.month = 7 ∨ d.month = 10) ↔ d.month % 3 = 1 := by
    have hle := d.month_le
    omega
  rw [isQuarterBegin, bind_of_ok (parse_ok gd hd)]
  simp only [hmonth]
  rfl

theorem isQuarterEnd_ok (hd : Supported d) :
    isQuarterEnd gd d.isoNumber = .ok (decide (d.IsEndOfMonth ∧ d.month % 3 = 0)) := by
  have hmonth : (d.month = 3 ∨ d.month = 6 ∨ d.month = 9 ∨ d.month = 12) ↔ d.month % 3 = 0 := by
    have hle := d.month_le
    have hpos := d.month_pos
    omega
  have hend : d = d.endOfMonth ↔ d.IsEndOfMonth := by
    rw [← endOfMonth_eq_iff]
    exact eq_comm
  rw [isQuarterEnd, bind_of_ok (parse_ok gd hd), bind_of_ok (gd.endOfMonth_ok d hd)]
  simp only [hmonth, hend]
  rfl

instance : DecidablePred TimeDurationRule.quarterBegin.IsDate :=
  fun _ => inferInstanceAs (Decidable (_ ∧ _))

instance : DecidablePred TimeDurationRule.quarterEnd.IsDate :=
  fun _ => inferInstanceAs (Decidable (_ ∧ _))

theorem isMonthBegin_of_quarter (x : Date) (hx : TimeDurationRule.quarterBegin.IsDate x) :
    TimeDurationRule.monthBegin.IsDate x :=
  hx.1

theorem isMonthEnd_of_quarter (x : Date) (hx : TimeDurationRule.quarterEnd.IsDate x) :
    TimeDurationRule.monthEnd.IsDate x :=
  hx.1

theorem quarterLoop_begin_ok {a : Date} (ha : Supported a) (hr : Supported r)
    (hdate : TimeDurationRule.monthBegin.IsDate a)
    (hfirst : IsFirst TimeDurationRule.quarterBegin.IsDate a r) :
    quarterLoop (isQuarterBegin gd) (nextCalendarDateMonthBegin gd) 4 a.isoNumber =
      .ok r.isoNumber := by
  apply quarterLoop_ok (P := TimeDurationRule.monthBegin.IsDate)
    (Q := TimeDurationRule.quarterBegin.IsDate) (monthsUntil 1)
    isMonthBegin_of_quarter (fun _ hx => isQuarterBegin_ok gd hx)
    (fun _ _ hx hy _ hnext => nextCalendarDateMonthBegin_ok gd hx hy hnext) _ _ ha hr hdate hfirst
  · intro x y hx hnext hself
    obtain rfl := hnext.unique x.isNext_nextMonth
    apply monthsUntil_nextMonth
    intro hzero
    exact hself ⟨hx, month_mod_of_monthsUntil (by decide) hzero⟩
  · exact (monthsUntil_lt 1 a).trans (by decide)

theorem quarterLoop_end_ok {a : Date} (ha : Supported a) (hr : Supported r)
    (hdate : TimeDurationRule.monthEnd.IsDate a)
    (hfirst : IsFirst TimeDurationRule.quarterEnd.IsDate a r) :
    quarterLoop (isQuarterEnd gd) (nextCalendarDateMonthEnd gd) 4 a.isoNumber =
      .ok r.isoNumber := by
  apply quarterLoop_ok (P := TimeDurationRule.monthEnd.IsDate)
    (Q := TimeDurationRule.quarterEnd.IsDate) (monthsUntil 0)
    isMonthEnd_of_quarter (fun _ hx => isQuarterEnd_ok gd hx)
    (fun _ _ hx hy hxdate hnext => nextCalendarDateMonthEnd_ok gd hx hy hxdate hnext)
    _ _ ha hr hdate hfirst
  · intro x y hx hnext hself
    obtain rfl := hnext.unique (isNext_monthEnd hx)
    apply monthsUntil_nextMonth
    intro hzero
    exact hself ⟨hx, month_mod_of_monthsUntil (by decide) hzero⟩
  · exact (monthsUntil_lt 0 a).trans (by decide)

theorem firstCalendarDateQuarterBegin_ok (hd : Supported d) (hr : Supported r)
    (hfirst : IsFirst TimeDurationRule.quarterBegin.IsDate d r) :
    firstCalendarDateQuarterBegin gd d.isoNumber = .ok r.isoNumber := by
  obtain ⟨a, ha, har⟩ :=
    exists_isFirst dayNumber_strictMono (isMonthBegin_of_quarter r hfirst.1.1) hfirst.1.2
  have hsupported := hd.of_between hr ha.1.2 har
  rw [firstCalendarDateQuarterBegin,
    bind_of_ok (firstCalendarDateMonthBegin_ok gd hd hsupported ha)]
  exact quarterLoop_begin_ok gd hsupported hr ha.1.1 (hfirst.from_isFirst isMonthBegin_of_quarter ha)

theorem nextCalendarDateQuarterBegin_ok (hd : Supported d) (hr : Supported r)
    (hnext : IsNext TimeDurationRule.quarterBegin.IsDate d r) :
    nextCalendarDateQuarterBegin gd d.isoNumber = .ok r.isoNumber := by
  obtain ⟨a, ha, har⟩ :=
    exists_isNext dayNumber_strictMono (isMonthBegin_of_quarter r hnext.1.1) hnext.1.2
  have hsupported := hd.of_between hr ha.1.2.le har
  rw [nextCalendarDateQuarterBegin,
    bind_of_ok (nextCalendarDateMonthBegin_ok gd hd hsupported ha)]
  exact quarterLoop_begin_ok gd hsupported hr ha.1.1 (hnext.from_isNext isMonthBegin_of_quarter ha)

theorem firstCalendarDateQuarterEnd_ok (hd : Supported d) (hr : Supported r)
    (hfirst : IsFirst TimeDurationRule.quarterEnd.IsDate d r) :
    firstCalendarDateQuarterEnd gd d.isoNumber = .ok r.isoNumber := by
  have hsupported : Supported d.endOfMonth := hd
  rw [firstCalendarDateQuarterEnd,
    bind_of_ok (firstCalendarDateMonthEnd_ok gd hd hsupported d.isFirst_endOfMonth)]
  exact quarterLoop_end_ok gd hd hr d.isEndOfMonth_endOfMonth
    (hfirst.from_isFirst isMonthEnd_of_quarter d.isFirst_endOfMonth)

theorem nextCalendarDateQuarterEnd_eq (hd : Supported d) (hr : Supported r)
    (hmonth : Supported d.nextMonth)
    (hfirst : IsFirst TimeDurationRule.quarterEnd.IsDate d.nextMonth.endOfMonth r) :
    nextCalendarDateQuarterEnd gd d.isoNumber = .ok r.isoNumber := by
  rw [nextCalendarDateQuarterEnd, bind_of_ok (nextCalendarDateMonthEnd_eq gd hd hmonth)]
  exact quarterLoop_end_ok gd hmonth hr d.nextMonth.isEndOfMonth_endOfMonth hfirst

theorem nextCalendarDateQuarterEnd_ok (hd : Supported d) (hr : Supported r)
    (hdate : TimeDurationRule.quarterEnd.IsDate d)
    (hnext : IsNext TimeDurationRule.quarterEnd.IsDate d r) :
    nextCalendarDateQuarterEnd gd d.isoNumber = .ok r.isoNumber := by
  have hmonth := isNext_monthEnd hdate.1
  have hfirst := hnext.from_isNext isMonthEnd_of_quarter hmonth
  have hsupported : Supported d.nextMonth.endOfMonth :=
    hd.of_between hr hmonth.1.2.le hfirst.1.2
  exact nextCalendarDateQuarterEnd_eq gd hd hr hsupported hfirst

/-! ## Years -/

theorem firstCalendarDateYearBegin_ok (hd : Supported d) (hr : Supported r)
    (hfirst : IsFirst TimeDurationRule.yearBegin.IsDate d r) :
    firstCalendarDateYearBegin gd d.isoNumber = .ok r.isoNumber := by
  rw [firstCalendarDateYearBegin, bind_of_ok (parse_ok gd hd)]
  by_cases hself : d.day = 1 ∧ d.month = 1
  · obtain rfl := hfirst.unique (isFirst_self (P := TimeDurationRule.yearBegin.IsDate) hself)
    rw [if_pos hself, toUnsigned_ok gd hd]
  · obtain rfl := hfirst.unique (isFirst_of_isNext hself (isNext_yearBegin d))
    have hbegin : gd.date d.year 1 1 = .ok (firstOfYear d.year) :=
      gd.date_ok (firstOfYear d.year) hd
    have hyears : gd.addYears (firstOfYear d.year) 1 = .ok (firstOfYear (d.year + 1)) :=
      gd.addYears_ok _ _ hd hr (by decide : 1 ≠ 2) rfl rfl rfl
    rw [if_neg hself, bind_of_ok hbegin, bind_of_ok hyears, toUnsigned_ok gd hr]

theorem nextCalendarDateYearBegin_ok (hd : Supported d) (hr : Supported r)
    (hdate : TimeDurationRule.yearBegin.IsDate d)
    (hnext : IsNext TimeDurationRule.yearBegin.IsDate d r) :
    nextCalendarDateYearBegin gd d.isoNumber = .ok r.isoNumber := by
  obtain rfl := hnext.unique (isNext_yearBegin d)
  have hmonth : d.month ≠ 2 := by
    rw [hdate.2]
    decide
  have hyears : gd.addYears d 1 = .ok (firstOfYear (d.year + 1)) :=
    gd.addYears_ok _ _ hd hr hmonth rfl hdate.2.symm hdate.1.symm
  rw [nextCalendarDateYearBegin, bind_of_ok (parse_ok gd hd), bind_of_ok hyears,
    toUnsigned_ok gd hr]

theorem firstCalendarDateYearEnd_ok (hd : Supported d) (hr : Supported r)
    (hfirst : IsFirst TimeDurationRule.yearEnd.IsDate d r) :
    firstCalendarDateYearEnd gd d.isoNumber = .ok r.isoNumber := by
  obtain rfl := hfirst.unique (isFirst_yearEnd d)
  have hend : gd.date d.year 12 31 = .ok (lastOfYear d.year) :=
    gd.date_ok (lastOfYear d.year) hr
  rw [firstCalendarDateYearEnd, bind_of_ok (parse_ok gd hd), bind_of_ok hend,
    toUnsigned_ok gd hr]

theorem nextCalendarDateYearEnd_ok (hd : Supported d) (hr : Supported r)
    (hdate : TimeDurationRule.yearEnd.IsDate d)
    (hnext : IsNext TimeDurationRule.yearEnd.IsDate d r) :
    nextCalendarDateYearEnd gd d.isoNumber = .ok r.isoNumber := by
  obtain rfl := hnext.unique (isNext_yearEnd hdate)
  have hend : gd.date d.year 12 31 = .ok (lastOfYear d.year) :=
    gd.date_ok (lastOfYear d.year) hd
  have hyears : gd.addYears (lastOfYear d.year) 1 = .ok (lastOfYear (d.year + 1)) :=
    gd.addYears_ok _ _ hd hr (by decide : 12 ≠ 2) rfl rfl rfl
  rw [nextCalendarDateYearEnd, bind_of_ok (parse_ok gd hd), bind_of_ok hend,
    bind_of_ok hyears, toUnsigned_ok gd hr]

end CppPlay.Calendar
