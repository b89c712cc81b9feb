import CppPlay.Calendar.ProlepticGregorian
import CppPlay.Calendar.RuleFunctions

/-!
# Going through the dates of a rule

`firstCalendarDate` gives the least date of a rule from a date on, `nextCalendarDate` the
least one after a date of the rule, and so calling the second again and again lists all
of them.
-/

namespace CppPlay.Calendar

open CppPlay.Lib CppPlay.Lib.Gregorian CppPlay.Lib.Gregorian.Date

variable (gd : BoostGregorian) {d r : Date}

theorem firstCalendarDate_ok (rule : TimeDurationRule) (hd : Supported d) (hr : Supported r)
    (hfirst : IsFirst rule.IsDate d r) :
    firstCalendarDate gd rule d.isoNumber = .ok r.isoNumber := by
  cases rule with
  | weekBegin => exact firstCalendarDateWeek_ok gd (by decide) hd hr hfirst
  | weekEnd => exact firstCalendarDateWeek_ok gd (by decide) hd hr hfirst
  | biMonthBegin => exact firstCalendarDateBiMonthBegin_ok gd hd hr hfirst
  | biMonthEnd => exact firstCalendarDateBiMonthEnd_ok gd hd hr hfirst
  | monthBegin => exact firstCalendarDateMonthBegin_ok gd hd hr hfirst
  | monthEnd => exact firstCalendarDateMonthEnd_ok gd hd hr hfirst
  | quarterBegin => exact firstCalendarDateQuarterBegin_ok gd hd hr hfirst
  | quarterEnd => exact firstCalendarDateQuarterEnd_ok gd hd hr hfirst
  | yearBegin => exact firstCalendarDateYearBegin_ok gd hd hr hfirst
  | yearEnd => exact firstCalendarDateYearEnd_ok gd hd hr hfirst

theorem nextCalendarDate_ok (rule : TimeDurationRule) (hd : Supported d) (hr : Supported r)
    (hdate : rule.IsDate d) (hnext : IsNext rule.IsDate d r) :
    nextCalendarDate gd rule d.isoNumber = .ok r.isoNumber := by
  cases rule with
  | weekBegin => exact nextCalendarDateWeek_ok gd (by decide) hd hr hdate hnext
  | weekEnd => exact nextCalendarDateWeek_ok gd (by decide) hd hr hdate hnext
  | biMonthBegin => exact nextCalendarDateBiMonthBegin_ok gd hd hr hdate hnext
  | biMonthEnd => exact nextCalendarDateBiMonthEnd_ok gd hd hr hdate hnext
  | monthBegin => exact nextCalendarDateMonthBegin_ok gd hd hr hnext
  | monthEnd => exact nextCalendarDateMonthEnd_ok gd hd hr hdate hnext
  | quarterBegin => exact nextCalendarDateQuarterBegin_ok gd hd hr hnext
  | quarterEnd => exact nextCalendarDateQuarterEnd_ok gd hd hr hdate hnext
  | yearBegin => exact nextCalendarDateYearBegin_ok gd hd hr hdate hnext
  | yearEnd => exact nextCalendarDateYearEnd_ok gd hd hr hdate hnext

/-- The loops of the quarters come to an end from dates of other rules too. -/
theorem nextCalendarDate_quarter_ok {rule : TimeDurationRule}
    (hrule : rule = .quarterBegin ∨ rule = .quarterEnd) (hd : Supported d)
    (hyear : d.year < 9999) : ∃ date, nextCalendarDate gd rule d.isoNumber = .ok date := by
  rcases hrule with rfl | rfl
  · obtain ⟨r, hnext, hr⟩ := exists_isNext_supported .quarterBegin hd hyear
    exact ⟨_, nextCalendarDateQuarterBegin_ok gd hd hr hnext⟩
  · obtain ⟨e, hnext, he⟩ := exists_isNext_supported .monthBegin hd hyear
    obtain rfl := hnext.unique d.isNext_nextMonth
    obtain ⟨r, hfirst, hle⟩ := exists_isFirst dayNumber_strictMono
      (isDate_quarterEnd_lastOfYear d.nextMonth.year)
      (isFirst_yearEnd d.nextMonth.endOfMonth).1.2
    have hlast : Supported (lastOfYear d.nextMonth.year) := he
    have hr : Supported r := hd.of_between hlast
      ((hnext.1.2.le.trans d.nextMonth.le_endOfMonth).trans hfirst.1.2) hle
    exact ⟨_, nextCalendarDateQuarterEnd_eq gd hd hr he hfirst⟩

/-- Following the functions lists the dates of the rule. -/
theorem calendarDate_enumerates (rule : TimeDurationRule) {x : Date} (hd : Supported d)
    (hx : Supported x) (hdate : rule.IsDate x) (hle : d ≤ x) :
    ∃ f k, Enumerates rule.IsDate d x f k ∧
      ∀ i ≤ k, calendarDate gd rule d.isoNumber i = .ok (f i).isoNumber := by
  obtain ⟨a, hfirst, hax⟩ := exists_isFirst dayNumber_strictMono hdate hle
  obtain ⟨f, k, hlists, hzero, _, hsteps⟩ :=
    exists_enumerates dayNumber_strictMono hdate hfirst hax
  have hsupported : ∀ i ≤ k, Supported (f i) := by
    intro i hi
    obtain ⟨_, hdi, hix⟩ := (hlists.mem_iff (f i)).mpr ⟨i, hi, rfl⟩
    exact hd.of_between hx hdi hix
  refine ⟨f, k, hlists, ?_⟩
  intro i hi
  induction i with
  | zero =>
      rw [← hzero] at hfirst
      exact firstCalendarDate_ok gd rule hd (hsupported 0 hi) hfirst
  | succ i ih =>
      have hbefore : i ≤ k := (Nat.le_succ i).trans hi
      obtain ⟨hruleDate, _⟩ := (hlists.mem_iff (f i)).mpr ⟨i, hbefore, rfl⟩
      rw [calendarDate, bind_of_ok (ih hbefore)]
      exact nextCalendarDate_ok gd rule (hsupported i hbefore) (hsupported (i + 1) hi)
        hruleDate (hsteps i hi)

/-- For every rule, the first date from a date on and the next one after a date of the rule
are computed as long as the year is not the last one that the library supports; all dates
of the rule are found one after another; and the loops of the quarters never give up. -/
theorem calendarDates_correct (rule : TimeDurationRule) :
    (∀ d, Supported d → d.year < 9999 → ∃ r, IsFirst rule.IsDate d r ∧
      firstCalendarDate gd rule d.isoNumber = .ok r.isoNumber) ∧
    (∀ d, Supported d → d.year < 9999 → rule.IsDate d → ∃ r, IsNext rule.IsDate d r ∧
      nextCalendarDate gd rule d.isoNumber = .ok r.isoNumber) ∧
    (∀ d x, Supported d → Supported x → rule.IsDate x → d ≤ x →
      ∃ f k, Enumerates rule.IsDate d x f k ∧
        ∀ i ≤ k, calendarDate gd rule d.isoNumber i = .ok (f i).isoNumber) ∧
    (∀ d, Supported d → d.year < 9999 →
      firstCalendarDate gd rule d.isoNumber ≠ .error coddingError ∧
      (rule = .quarterBegin ∨ rule = .quarterEnd →
        nextCalendarDate gd rule d.isoNumber ≠ .error coddingError)) := by
  have hfirstDate : ∀ d, Supported d → d.year < 9999 → ∃ r, IsFirst rule.IsDate d r ∧
      firstCalendarDate gd rule d.isoNumber = .ok r.isoNumber := by
    intro d hd hyear
    obtain ⟨r, hfirst, hr⟩ := exists_isFirst_supported rule hd hyear
    exact ⟨r, hfirst, firstCalendarDate_ok gd rule hd hr hfirst⟩
  refine ⟨hfirstDate, ?_, ?_, ?_⟩
  · intro d hd hyear hdate
    obtain ⟨r, hnext, hr⟩ := exists_isNext_supported rule hd hyear
    exact ⟨r, hnext, nextCalendarDate_ok gd rule hd hr hdate hnext⟩
  · intro d x hd hx hdate hle
    exact calendarDate_enumerates gd rule hd hx hdate hle
  · intro d hd hyear
    constructor
    · obtain ⟨r, _, hok⟩ := hfirstDate d hd hyear
      rw [hok]
      exact nofun
    · intro hrule
      obtain ⟨date, hok⟩ := nextCalendarDate_quarter_ok gd hrule hd hyear
      rw [hok]
      exact nofun

def leapDay : Date := ⟨2020, 2, 29, by decide, by decide, by decide, by decide⟩

theorem isoNumber_leapDay : leapDay.isoNumber = 20200229 := by decide

/-- From the leap day of 2020 the ends of the quarters up to the end of that year. -/
theorem calendarDates_correct_leapDay :
    ∃ f k, Enumerates TimeDurationRule.quarterEnd.IsDate leapDay (lastOfYear 2020) f k ∧
      ∀ i ≤ k, calendarDate prolepticGregorian .quarterEnd 20200229 i = .ok (f i).isoNumber := by
  have hdates := (calendarDates_correct prolepticGregorian .quarterEnd).2.2.1 leapDay
    (lastOfYear 2020) (by decide) (by decide) (by decide) (by decide)
  rwa [isoNumber_leapDay] at hdates

end CppPlay.Calendar
