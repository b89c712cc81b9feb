import CppPlay.Calendar.CalendarDate

/-!
# First and next dates of the rules

For each rule the least of its dates from a given date on, and the least one after it,
in terms of the calendar alone.
-/

namespace CppPlay.Calendar

open CppPlay.Lib CppPlay.Lib.Gregorian CppPlay.Lib.Gregorian.Date

variable {d r x : Date}

theorem Supported.of_between (hd : Supported d) (hx : Supported x) (hle : d ≤ r) (hrx : r ≤ x) :
    Supported r :=
  ⟨hd.1.trans (year_le_of_le hle), (year_le_of_le hrx).trans hx.2⟩

/-! ## Half months -/

theorem fifteen_le_daysInMonth (year month : ℕ) : 15 ≤ daysInMonth year month := by
  have hbounds := daysInMonth_bounds year month
  omega

def fifteenth (d : Date) : Date :=
  d.withDay 15 (Nat.le_add_left 1 14) (fifteen_le_daysInMonth _ _)

theorem addDays_fifteenth (hday : d.day ≤ 15) : d.addDays (15 - d.day) = fifteenth d := by
  have hsum : d.day + (15 - d.day) = 15 := by omega
  have hle : d.day + (15 - d.day) ≤ daysInMonth d.year d.month := by
    rw [hsum]
    exact fifteen_le_daysInMonth _ _
  rw [addDays_within d hle]
  exact Date.ext rfl rfl hsum

theorem lt_fifteenth (hday : d.day < 15) : d < fifteenth d := by
  rw [lt_iff_lex]
  exact .inr ⟨rfl, .inr ⟨rfl, hday⟩⟩

/-- Between a day of the first half of a month and the 15th there is no date of a set that
has in such a month only days from the 15th on, and perhaps days before `d`. -/
theorem isNext_fifteenth {P : Date → Prop} (hday : d.day < 15) (hfifteenth : P (fifteenth d))
    (hnone : ∀ x, P x → d.day < x.day → 15 ≤ x.day) : IsNext P d (fifteenth d) := by
  refine ⟨⟨hfifteenth, lt_fifteenth hday⟩, ?_⟩
  rintro x ⟨hx, hlt⟩
  by_contra hbefore
  have hwithin := hnone x hx
  rw [not_le, lt_iff_lex] at hbefore
  rw [lt_iff_lex] at hlt
  simp only [fifteenth, withDay] at hbefore
  omega

theorem isNext_biMonthBegin_firstHalf (hday : d.day < 15) :
    IsNext TimeDurationRule.biMonthBegin.IsDate d (fifteenth d) := by
  apply isNext_fifteenth hday (.inr rfl)
  rintro x hx hlt
  have hpos := d.day_pos
  rcases hx with hx | hx <;> omega

theorem isNext_biMonthBegin_secondHalf (hday : 15 ≤ d.day) :
    IsNext TimeDurationRule.biMonthBegin.IsDate d d.nextMonth := by
  have hnext := d.isNext_nextMonth
  refine ⟨⟨.inl hnext.1.1, hnext.1.2⟩, ?_⟩
  rintro x ⟨hx, hlt⟩
  rcases hx with hx | hx
  · exact hnext.2 ⟨hx, hlt⟩
  · exact nextMonth_le hlt (hx.trans_le hday)

theorem isNext_biMonthEnd_firstHalf (hday : d.day < 15) :
    IsNext TimeDurationRule.biMonthEnd.IsDate d (fifteenth d) := by
  apply isNext_fifteenth hday (.inl rfl)
  rintro x hx -
  rcases hx with hx | hx
  · omega
  · rw [hx]
    exact fifteen_le_daysInMonth _ _

theorem isNext_biMonthEnd_secondHalf (hday : 15 ≤ d.day) (hlast : ¬ d.IsEndOfMonth) :
    IsNext TimeDurationRule.biMonthEnd.IsDate d d.endOfMonth := by
  have hnext := isNext_of_isFirst hlast d.isFirst_endOfMonth
  refine ⟨⟨.inr hnext.1.1, hnext.1.2⟩, ?_⟩
  rintro x ⟨hx, hlt⟩
  rcases hx with hx | hx
  · exact d.endOfMonth_lt_nextMonth.le.trans (nextMonth_le hlt (hx.trans_le hday))
  · exact hnext.2 ⟨hx, hlt⟩

theorem not_isDate_nextMonth (d : Date) :
    ¬ TimeDurationRule.biMonthEnd.IsDate d.nextMonth := by
  have hday := d.nextMonth_day
  have hlong := fifteen_le_daysInMonth d.nextMonth.year d.nextMonth.month
  rintro (hfifteen | hlast)
  · omega
  · unfold IsEndOfMonth at hlast
    omega

theorem isNext_biMonthEnd_last (hlast : d.IsEndOfMonth) :
    IsNext TimeDurationRule.biMonthEnd.IsDate d (fifteenth d.nextMonth) := by
  have hday := d.nextMonth_day
  apply isNext_of_isFirst_succ
  rw [succ_of_isEndOfMonth hlast]
  apply isFirst_of_isNext (not_isDate_nextMonth d)
  exact isNext_biMonthEnd_firstHalf (by omega)

/-! ## Months -/

theorem isNext_monthEnd (hlast : d.IsEndOfMonth) :
    IsNext TimeDurationRule.monthEnd.IsDate d d.nextMonth.endOfMonth := by
  apply isNext_of_isFirst_succ
  rw [succ_of_isEndOfMonth hlast]
  exact d.nextMonth.isFirst_endOfMonth

/-! ## Years -/

theorem isNext_yearBegin (d : Date) :
    IsNext TimeDurationRule.yearBegin.IsDate d (firstOfYear (d.year + 1)) := by
  refine ⟨⟨⟨rfl, rfl⟩, lt_iff_lex.mpr (.inl (Nat.lt_succ_self _))⟩, ?_⟩
  rintro x ⟨⟨hday, hmonth⟩, hlt⟩
  have hdpos := d.day_pos
  have hmpos := d.month_pos
  by_contra hbefore
  rw [not_le, lt_iff_lex] at hbefore
  rw [lt_iff_lex] at hlt
  simp only [firstOfYear] at hbefore
  omega

theorem isFirst_yearEnd (d : Date) :
    IsFirst TimeDurationRule.yearEnd.IsDate d (lastOfYear d.year) := by
  have hday := d.day_le_31
  have hmonth := d.month_le
  constructor
  · refine ⟨⟨rfl, rfl⟩, ?_⟩
    by_contra hbefore
    rw [not_le, lt_iff_lex] at hbefore
    simp only [lastOfYear] at hbefore
    omega
  · rintro x ⟨⟨hxday, hxmonth⟩, hle⟩
    have hyear := year_le_of_le hle
    by_contra hbefore
    rw [not_le, lt_iff_lex] at hbefore
    simp only [lastOfYear] at hbefore
    omega

theorem isNext_yearEnd (hdate : TimeDurationRule.yearEnd.IsDate d) :
    IsNext TimeDurationRule.yearEnd.IsDate d (lastOfYear (d.year + 1)) := by
  have hmonth : ¬ d.month < 12 := by
    rw [hdate.2]
    exact lt_irrefl 12
  have hlast : d.IsEndOfMonth := by
    unfold IsEndOfMonth
    rw [hdate.1, hdate.2]
    rfl
  have hsucc : d.succ = firstOfYear (d.year + 1) := by
    rw [succ_of_isEndOfMonth hlast]
    exact dif_neg hmonth
  apply isNext_of_isFirst_succ
  rw [hsucc]
  exact isFirst_yearEnd (firstOfYear (d.year + 1))

/-! ## Every rule has dates in every year -/

theorem exists_dayOfWeek (year : ℕ) {dayOfWeek : ℕ} (hday : dayOfWeek < 7) :
    ∃ x : Date, x.dayOfWeek = dayOfWeek ∧ x.year = year := by
  have hfew : (firstOfYear year).daysUntil dayOfWeek ≤ 7 := by
    unfold daysUntil
    omega
  refine ⟨_, (firstOfYear year).dayOfWeek_addDays_daysUntil hday, ?_⟩
  rw [addDays_within]
  · rfl
  · have hlong := (daysInMonth_bounds year 1).1
    show 1 + (firstOfYear year).daysUntil dayOfWeek ≤ daysInMonth year 1
    omega

theorem isDate_quarterEnd_lastOfYear (year : ℕ) :
    TimeDurationRule.quarterEnd.IsDate (lastOfYear year) :=
  ⟨rfl, Nat.mul_mod_right 3 4⟩

theorem exists_isDate_of_year (rule : TimeDurationRule) (year : ℕ) :
    ∃ x, rule.IsDate x ∧ x.year = year := by
  cases rule with
  | weekBegin => exact exists_dayOfWeek year (by decide)
  | weekEnd => exact exists_dayOfWeek year (by decide)
  | biMonthBegin => exact ⟨firstOfYear year, .inl rfl, rfl⟩
  | biMonthEnd => exact ⟨lastOfYear year, .inr rfl, rfl⟩
  | monthBegin => exact ⟨firstOfYear year, rfl, rfl⟩
  | monthEnd => exact ⟨lastOfYear year, rfl, rfl⟩
  | quarterBegin => exact ⟨firstOfYear year, ⟨rfl, rfl⟩, rfl⟩
  | quarterEnd => exact ⟨lastOfYear year, isDate_quarterEnd_lastOfYear year, rfl⟩
  | yearBegin => exact ⟨firstOfYear year, ⟨rfl, rfl⟩, rfl⟩
  | yearEnd => exact ⟨lastOfYear year, ⟨rfl, rfl⟩, rfl⟩

/-- Before the last supported year the next date of each rule is supported too. -/
theorem exists_isNext_supported (rule : TimeDurationRule) (hd : Supported d)
    (hyear : d.year < 9999) : ∃ r, IsNext rule.IsDate d r ∧ Supported r := by
  obtain ⟨x, hx, hxyear⟩ := exists_isDate_of_year rule (d.year + 1)
  have hlt : d < x := by
    rw [lt_iff_lex, hxyear]
    exact .inl (Nat.lt_succ_self _)
  have hsupported : Supported x := by
    unfold Supported
    rw [hxyear]
    exact ⟨hd.1.trans (Nat.le_succ _), hyear⟩
  obtain ⟨r, hnext, hle⟩ := exists_isNext dayNumber_strictMono hx hlt
  exact ⟨r, hnext, hd.of_between hsupported hnext.1.2.le hle⟩

theorem exists_isFirst_supported (rule : TimeDurationRule) (hd : Supported d)
    (hyear : d.year < 9999) : ∃ r, IsFirst rule.IsDate d r ∧ Supported r := by
  obtain ⟨x, hnext, hx⟩ := exists_isNext_supported rule hd hyear
  obtain ⟨r, hfirst, hle⟩ := exists_isFirst dayNumber_strictMono hnext.1.1 hnext.1.2.le
  exact ⟨r, hfirst, hd.of_between hx hfirst.1.2 hle⟩

end CppPlay.Calendar
