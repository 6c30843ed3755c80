import VBox.Runtime.TimeNormalize

/-!
What `RTTimeNormalize` makes of overflowing dates.

A month that reaches beyond its end is taken to be as long as in a leap year, and the first day
of a month is taken for one too many of the month before.
-/

namespace VBox.Runtime.Time

open VBox.Lib.Gregorian Option

/-! ### Dates in the fields -/

namespace RtTime

variable (pTime pTime' : RtTime)

/-- The first of the month. -/
def monthStart : Int :=
  yearStart pTime.i32Year + daysBefore (IsLeap pTime.i32Year) (pTime.u8Month - 1)

/-- The day that year, month and day of the month name, also when there are too many days. -/
def monthDayNumber : Int := pTime.monthStart + pTime.u8MonthDay - 1

def cDaysInMonth : Nat := daysInMonth (IsLeap pTime.i32Year) pTime.u8Month

structure HasDate (date : Date) : Prop where
  year : pTime.i32Year = date.year
  month : pTime.u8Month = date.month
  monthDay : pTime.u8MonthDay = date.day
  yearDay : pTime.u16YearDay = date.dayOfYear

/-- A day behind the end of its month. -/
structure Past (slack : Nat) : Prop where
  months : 1 ≤ pTime.u8Month ∧ pTime.u8Month ≤ 12
  past : pTime.cDaysInMonth < pTime.u8MonthDay
  few : pTime.u8MonthDay ≤ 32 + slack
  yearDay : pTime.u16YearDay =
    daysBefore (IsLeap pTime.i32Year) (pTime.u8Month - 1) + pTime.u8MonthDay

/-- Only the day differs. -/
structure SameTime : Prop where
  hour : pTime'.u8Hour = pTime.u8Hour
  minute : pTime'.u8Minute = pTime.u8Minute
  second : pTime'.u8Second = pTime.u8Second
  nanosecond : pTime'.u32Nanosecond = pTime.u32Nanosecond

theorem SameTime.refl : SameTime pTime pTime := ⟨rfl, rfl, rfl, rfl⟩

variable {pTime pTime'}

theorem SameTime.trans {pTime'' : RtTime} (first : SameTime pTime pTime')
    (second : SameTime pTime' pTime'') : SameTime pTime pTime'' :=
  ⟨second.hour.trans first.hour, second.minute.trans first.minute,
    second.second.trans first.second, second.nanosecond.trans first.nanosecond⟩

theorem fLeapYear_eq : pTime.fLeapYear = decide (IsLeap pTime.i32Year) :=
  rtTimeIsLeapYear_eq _

theorem cDaysInYear_eq : pTime.cDaysInYear = daysInYear pTime.i32Year := leapDays_eq _

theorem paiDayOfYear_get {month : Nat} (inside : month < 13) :
    pTime.paiDayOfYear[month]? = some ((daysBefore (IsLeap pTime.i32Year) month : Int) + 1) :=
  aiDayOfYear_get _ inside

section

variable (months : 1 ≤ pTime.u8Month ∧ pTime.u8Month ≤ 12)

include months

theorem yearDay_eq (days : 1 ≤ pTime.u8MonthDay) (few : pTime.u8MonthDay < 2 ^ 8) : pTime.yearDay =
      some (daysBefore (IsLeap pTime.i32Year) (pTime.u8Month - 1) + pTime.u8MonthDay) := by
  have short := daysBefore_le (IsLeap pTime.i32Year) (pTime.u8Month - 1)
  rw [yearDay, paiDayOfYear_get (by omega), map_some, uint]
  congr 1
  omega

theorem daysBefore_u8Month : daysBefore (IsLeap pTime.i32Year) pTime.u8Month =
      daysBefore (IsLeap pTime.i32Year) (pTime.u8Month - 1) + pTime.cDaysInMonth := by
  obtain ⟨month, eq⟩ : ∃ month, pTime.u8Month = month + 1 := ⟨pTime.u8Month - 1, by omega⟩
  rw [cDaysInMonth, eq, Nat.add_sub_cancel, daysBefore]

/-- Fields within their month are a date. -/
theorem exists_hasDate
    (days : 1 ≤ pTime.u8MonthDay) (inside : pTime.u8MonthDay ≤ pTime.cDaysInMonth)
    (yearDay : pTime.u16YearDay =
      daysBefore (IsLeap pTime.i32Year) (pTime.u8Month - 1) + pTime.u8MonthDay) :
    ∃ date, pTime.HasDate date ∧ date.dayNumber = pTime.monthDayNumber := by
  refine ⟨⟨pTime.i32Year, pTime.u8Month, pTime.u8MonthDay, months, days, inside⟩,
    ⟨rfl, rfl, rfl, yearDay⟩, ?_⟩
  simp only [Date.dayNumber, Date.dayOfYear, monthDayNumber, monthStart]
  omega

end

end RtTime

/-! ### Months and days of the month -/

theorem carryMonths_eq {pTime : RtTime} (month : 1 ≤ pTime.u8Month) :
    (carryMonths pTime).i32Year = pTime.i32Year + ((pTime.u8Month - 1) / 12 : Nat) ∧
      (carryMonths pTime).u8Month = (pTime.u8Month - 1) % 12 + 1 ∧
      (carryMonths pTime).u8MonthDay = pTime.u8MonthDay ∧ pTime.SameTime (carryMonths pTime) := by
  induction pTime using carryMonths.induct with
  | case1 pTime more ih =>
    obtain ⟨year, month', day, same⟩ := ih (Nat.sub_pos_of_lt more)
    rw [carryMonths, if_pos more]
    refine ⟨year.trans ?_, month'.trans ?_, day,
      ⟨same.hour, same.minute, same.second, same.nanosecond⟩⟩
    · simp only [RtTime.nextYear]
      omega
    · simp only
      omega
  | case2 pTime few =>
    rw [carryMonths, if_neg few]
    exact ⟨by omega, by omega, rfl, .refl pTime⟩

section NextMonth

variable {pTime : RtTime}

theorem nextMonth_spec (cDaysInMonth : Nat)
    (months : 1 ≤ pTime.u8Month ∧ pTime.u8Month ≤ 12) :
    let next := pTime.nextMonth cDaysInMonth
    next.monthStart = pTime.monthStart + pTime.cDaysInMonth ∧
      (1 ≤ next.u8Month ∧ next.u8Month ≤ 12) ∧ pTime.SameTime next := by
  have before := RtTime.daysBefore_u8Month months
  have start : pTime.monthStart + pTime.cDaysInMonth =
      yearStart pTime.i32Year + daysBefore (IsLeap pTime.i32Year) pTime.u8Month := by
    rw [before, RtTime.monthStart]
    omega
  rw [start]
  unfold RtTime.nextMonth
  by_cases last : pTime.u8Month = 12
  · rw [if_neg (not_not.mpr last)]
    refine ⟨?_, ⟨Nat.le_refl 1, (by decide : 1 ≤ 12)⟩, ⟨rfl, rfl, rfl, rfl⟩⟩
    rw [last, daysBefore_twelve, ← yearStart_succ]
    exact Int.add_zero _
  · rw [if_pos last]
    exact ⟨rfl, ⟨Nat.le_add_left _ _, by simp only; omega⟩, ⟨rfl, rfl, rfl, rfl⟩⟩

end NextMonth

/-- The days counted on from a first of the month reach the first of March of a common year. -/
def ReachesMarch (first day : Int) : Prop :=
  ∃ year, ¬ IsLeap year ∧ first < yearStart year + 59 ∧ yearStart year + 59 ≤ day

theorem g_acDaysInMonthsLeap_get {month : Nat} (months : 1 ≤ month ∧ month ≤ 12) :
    g_acDaysInMonthsLeap[month - 1]? = some (daysInMonth True month) := by
  have table : ∀ month < 12,
      g_acDaysInMonthsLeap[month]? = some (daysInMonth True (month + 1)) := by
    decide
  rw [table _ (by omega), Nat.sub_add_cancel months.1]

/-- Where the walk over the months can end. -/
inductive Walked (pTime pTime' : RtTime) : Prop where
  | right (inside : pTime'.u8MonthDay ≤ pTime'.cDaysInMonth)
      (number : pTime'.monthDayNumber = pTime.monthDayNumber)
      (safe : ¬ ReachesMarch pTime.monthStart pTime.monthDayNumber)
  | past (day : pTime'.u8MonthDay = pTime'.cDaysInMonth + 1)
      (march : ReachesMarch pTime.monthStart pTime.monthDayNumber)
  | early (inside : pTime'.u8MonthDay ≤ pTime'.cDaysInMonth)
      (number : pTime'.monthDayNumber < pTime.monthDayNumber)
      (march : ReachesMarch pTime.monthStart pTime.monthDayNumber)

section Walk

variable {pTime : RtTime} (months : 1 ≤ pTime.u8Month ∧ pTime.u8Month ≤ 12)

include months

/-- Within a month there is no first of March, behind it the February of a common year's. -/
theorem march_of_month {year : Int} (common : ¬ IsLeap year)
    (after : pTime.monthStart < yearStart year + 59)
    (upTo : yearStart year + 59 ≤ pTime.monthStart + pTime.cDaysInMonth) :
    pTime.u8Month = 2 ∧ ¬ IsLeap pTime.i32Year ∧
      yearStart year + 59 = pTime.monthStart + pTime.cDaysInMonth := by
  have before := RtTime.daysBefore_u8Month months
  have whole : yearStart year + 59 ≤
      yearStart pTime.i32Year + daysBefore (IsLeap pTime.i32Year) pTime.u8Month := by
    rw [before]
    unfold RtTime.monthStart at upTo
    omega
  obtain ⟨same, february⟩ := eq_of_march common months after whole
  rw [same] at before whole ⊢
  have march : daysBefore (IsLeap year) 2 = 59 := by simp [daysBefore, daysInMonth, common]
  rw [february] at before
  refine ⟨february, common, ?_⟩
  rw [RtTime.monthStart, same, february]
  omega

theorem carryDays_eq : carryDays pTime =
    if pTime.u8MonthDay ≤ daysInMonth True pTime.u8Month then some pTime
    else carryDays (pTime.nextMonth (daysInMonth True pTime.u8Month)) := by
  rw [carryDays]
  split
  · rename_i outside
    rw [g_acDaysInMonthsLeap_get months] at outside
    cases outside
  · rename_i found
    rw [g_acDaysInMonthsLeap_get months] at found
    obtain rfl := some.inj found
    rfl

end Walk

variable {pTime : RtTime}

/-- The walk's length of a month is right but for the February of a common year. -/
theorem leapMonth_eq (pTime : RtTime) : daysInMonth True pTime.u8Month = pTime.cDaysInMonth ∨
    pTime.u8Month = 2 ∧ ¬ IsLeap pTime.i32Year ∧ pTime.cDaysInMonth = 28 ∧
      daysInMonth True pTime.u8Month = 29 := by
  unfold RtTime.cDaysInMonth daysInMonth
  by_cases february : pTime.u8Month = 2
  · by_cases leap : IsLeap pTime.i32Year
    · exact .inl (by simp [february, leap])
    · exact .inr ⟨february, leap, by simp [february, leap], by simp [february]⟩
  · exact .inl (by simp [february])

/-- Where a month ends the walk, nothing was passed. -/
theorem not_reachesMarch (months : 1 ≤ pTime.u8Month ∧ pTime.u8Month ≤ 12)
    (inside : pTime.u8MonthDay ≤ pTime.cDaysInMonth) :
    ¬ ReachesMarch pTime.monthStart pTime.monthDayNumber := by
  rintro ⟨year, common, after, upTo⟩
  unfold RtTime.monthDayNumber at upTo
  obtain ⟨-, -, atEnd⟩ := march_of_month months common after (by omega)
  omega

/-- A month of the right length is passed as it should be. -/
theorem reachesMarch_next (months : 1 ≤ pTime.u8Month ∧ pTime.u8Month ≤ 12)
    (right : ¬ (pTime.u8Month = 2 ∧ ¬ IsLeap pTime.i32Year)) (day : Int) :
    ReachesMarch (pTime.monthStart + pTime.cDaysInMonth) day ↔
      ReachesMarch pTime.monthStart day := by
  constructor
  · rintro ⟨year, common, after, upTo⟩
    exact ⟨year, common, by omega, upTo⟩
  · rintro ⟨year, common, after, upTo⟩
    refine ⟨year, common, ?_, upTo⟩
    by_contra before
    obtain ⟨february, common', -⟩ := march_of_month months common after (by omega)
    exact right ⟨february, common'⟩

/-- The February of a common year ends at a first of March. -/
theorem reachesMarch_february (february : pTime.u8Month = 2) (common : ¬ IsLeap pTime.i32Year)
    {day : Int} (past : pTime.monthStart + 28 ≤ day) : ReachesMarch pTime.monthStart day := by
  have start : pTime.monthStart = yearStart pTime.i32Year + 31 := by
    simp [RtTime.monthStart, february, daysBefore, daysInMonth]
  exact ⟨pTime.i32Year, common, by omega, by omega⟩

/-- The walk with the days of leap years. -/
theorem carryDays_spec (months : 1 ≤ pTime.u8Month ∧ pTime.u8Month ≤ 12)
    (days : 1 ≤ pTime.u8MonthDay) :
    ∃ pTime', carryDays pTime = some pTime' ∧ pTime.SameTime pTime' ∧
      (1 ≤ pTime'.u8Month ∧ pTime'.u8Month ≤ 12) ∧ 1 ≤ pTime'.u8MonthDay ∧ Walked pTime pTime' := by
  induction size : pTime.u8MonthDay using Nat.strong_induction_on generalizing pTime with
  | _ n ih =>
    have number : pTime.monthDayNumber = pTime.monthStart + pTime.u8MonthDay - 1 := rfl
    have shortest := le_daysInMonth True pTime.u8Month
    rw [carryDays_eq months]
    by_cases ends : pTime.u8MonthDay ≤ daysInMonth True pTime.u8Month
    · refine ⟨pTime, if_pos ends, .refl pTime, months, days, ?_⟩
      obtain right | ⟨february, common, short, long⟩ := leapMonth_eq pTime
      · exact .right (right ▸ ends) rfl (not_reachesMarch months (right ▸ ends))
      · by_cases inside : pTime.u8MonthDay ≤ pTime.cDaysInMonth
        · exact .right inside rfl (not_reachesMarch months inside)
        · exact .past (by omega) (reachesMarch_february february common (by omega))
    · rw [if_neg ends]
      obtain ⟨start, months', same⟩ := nextMonth_spec (daysInMonth True pTime.u8Month) months
      have rest := pTime.nextMonth_u8MonthDay (daysInMonth True pTime.u8Month)
      obtain ⟨pTime', walk, same', months'', days', walked⟩ :=
        ih _ (by omega) months' (by omega) rfl
      have number' : (pTime.nextMonth (daysInMonth True pTime.u8Month)).monthDayNumber =
        _ + _ - 1 := rfl
      refine ⟨pTime', walk, same.trans same', months'', days', ?_⟩
      obtain right | ⟨february, common, short, long⟩ := leapMonth_eq pTime
      · have plain : ¬ (pTime.u8Month = 2 ∧ ¬ IsLeap pTime.i32Year) := by
          rintro ⟨february, common⟩
          simp [RtTime.cDaysInMonth, daysInMonth, february, common] at right
        have sameNumber : (pTime.nextMonth (daysInMonth True pTime.u8Month)).monthDayNumber =
          pTime.monthDayNumber := by omega
        have march := reachesMarch_next months plain pTime.monthDayNumber
        rw [← start] at march
        cases walked with
        | right inside number'' safe =>
          exact .right inside (number''.trans sameNumber)
            (mt march.mpr (by rwa [sameNumber] at safe))
        | past day reached => exact .past day (march.mp (by rwa [sameNumber] at reached))
        | early inside number'' reached =>
          exact .early inside (by omega) (march.mp (by rwa [sameNumber] at reached))
      · have march := reachesMarch_february february common
          (show _ ≤ pTime.monthDayNumber by omega)
        cases walked with
        | right inside number'' _ => exact .early inside (by omega) march
        | past day _ => exact .past day march
        | early inside number'' _ => exact .early inside (by omega) march

/-! ### Days of the year -/

/-- The walk over the years ends where the day of the year is one of its year's. -/
theorem carryYears_spec (days : 1 ≤ pTime.u16YearDay) : 1 ≤ (carryYears pTime).u16YearDay ∧
      (carryYears pTime).u16YearDay ≤ daysInYear (carryYears pTime).i32Year ∧
      (carryYears pTime).yearDayNumber = pTime.yearDayNumber ∧
      pTime.SameTime (carryYears pTime) := by
  induction pTime using carryYears.induct with
  | case1 pTime more ih =>
    rw [RtTime.cDaysInYear_eq] at more ih
    obtain ⟨first, last, number, same⟩ := ih (Nat.sub_pos_of_lt more)
    rw [carryYears, RtTime.cDaysInYear_eq, if_pos more]
    refine ⟨first, last, number.trans ?_, ⟨same.hour, same.minute, same.second, same.nanosecond⟩⟩
    have next := yearStart_succ pTime.i32Year
    simp only [RtTime.yearDayNumber, RtTime.nextYear]
    omega
  | case2 pTime few =>
    rw [RtTime.cDaysInYear_eq] at few
    rw [carryYears, RtTime.cDaysInYear_eq, if_neg few]
    exact ⟨days, by omega, rfl, .refl pTime⟩

theorem searchMonth_eq (table : List Int) (u16YearDay i : Nat) :
    searchMonth table u16YearDay (i + 1) =
      (searchUp table ((u16YearDay : Int) - 1) i).map (· + 1) := by
  induction i using searchUp.induct table ((u16YearDay : Int) - 1) with
  | case1 i inside up ih =>
    have step : searchUp table ((u16YearDay : Int) - 1) i =
        searchUp table ((u16YearDay : Int) - 1) (i + 1) := by
      conv_lhs => rw [searchUp, dif_pos inside, if_pos up]
    rw [searchMonth, dif_pos inside, if_pos (by omega), ih, step]
  | case2 i inside stop =>
    rw [searchMonth, dif_pos inside, if_neg (by omega), searchUp, dif_pos inside, if_neg stop]
    rfl
  | case3 i outside =>
    rw [searchMonth, dif_neg outside, searchUp, dif_neg outside]
    rfl

/-- The month found for a day of the year: the one before where a month but January begins. -/
theorem searchMonth_of_date (date : Date) (year : pTime.i32Year = date.year) :
    searchMonth pTime.paiDayOfYear date.dayOfYear 1 =
      some (if date.day = 1 ∧ date.month ≠ 1 then date.month - 1 else date.month) := by
  have months := date.inYear
  have days := date.inMonth.1
  have before := date.dayOfYear_le_daysBefore
  have sum : date.dayOfYear = daysBefore (IsLeap date.year) (date.month - 1) + date.day := rfl
  have mono := daysBefore_strictMono (IsLeap date.year)
  rw [RtTime.paiDayOfYear, RtTime.fLeapYear, year, searchMonth_eq, aiDayOfYear_eq]
  by_cases begins : date.day = 1 ∧ date.month ≠ 1
  · have less := mono (show date.month - 2 < date.month - 1 by omega)
    rw [if_pos begins, searchUp_eq (dayOfYear_strictMono date.year) (y := date.month - 2)
      (fun _ => by omega)
      (by rw [show date.month - 2 + 1 = date.month - 1 by omega]; omega) (by omega) (by decide),
      map_some, Nat.zero_max]
    congr 1
    omega
  · rw [if_neg begins, searchUp_eq (dayOfYear_strictMono date.year) (y := date.month - 1)
      (fun later => by omega)
      (by rw [Nat.sub_add_cancel months.1]; omega) (by omega) (by decide),
      map_some, Nat.zero_max, Nat.sub_add_cancel months.1]

/-! ### The day meant, and the day made of it -/

/-- The first of the month meant, months beyond December being those of later years. -/
def RtTime.monthMeant (pTime : RtTime) : Int :=
  let year := pTime.i32Year + ((pTime.u8Month - 1) / 12 : Nat)
  yearStart year + daysBefore (IsLeap year) ((pTime.u8Month - 1) % 12)

/-- The day meant, by the year-day where there is one. -/
def RtTime.dayMeant (pTime : RtTime) : Int :=
  if pTime.u16YearDay = 0 then pTime.monthMeant + pTime.u8MonthDay - 1
  else pTime.yearDayNumber

/-- Counting on from the month, no first of March of a common year is reached; and a year-day
that month and day do not confirm is not that of a first of the month but January's. -/
def RtTime.CarriesWell (pTime : RtTime) : Prop :=
  if pTime.u16YearDay = 0 then ¬ ReachesMarch pTime.monthMeant pTime.dayMeant
  else (∃ date, pTime.HasDate date) ∨
    ∀ date : Date, date.dayNumber = pTime.dayMeant → date.day = 1 → date.month = 1

theorem g_acDays_get (months : 1 ≤ pTime.u8Month ∧ pTime.u8Month ≤ 12) :
    (if pTime.fLeapYear then g_acDaysInMonthsLeap else g_acDaysInMonths)[pTime.u8Month - 1]? =
      some pTime.cDaysInMonth := by
  have common : ∀ month < 12, g_acDaysInMonths[month]? = some (daysInMonth False (month + 1)) := by
    decide
  rw [RtTime.fLeapYear_eq]
  by_cases leap : IsLeap pTime.i32Year
  · rw [decide_eq_true leap, if_pos rfl, g_acDaysInMonthsLeap_get months]
    simp only [RtTime.cDaysInMonth, daysInMonth, leap]
  · rw [decide_eq_false leap, if_neg Bool.false_ne_true, common _ (by omega),
      Nat.sub_add_cancel months.1]
    simp only [RtTime.cDaysInMonth, daysInMonth, leap]

theorem fMatch_iff : pTime.fMatch = true ↔ ∃ date, pTime.HasDate date := by
  simp only [RtTime.fMatch, Bool.and_eq_true, bne_iff_ne, decide_eq_true_eq, beq_iff_eq, ne_eq]
  constructor
  · rintro ⟨⟨⟨⟨month, day⟩, last⟩, inside⟩, yearDay⟩
    have months : 1 ≤ pTime.u8Month ∧ pTime.u8Month ≤ 12 := ⟨by omega, last⟩
    rw [g_acDays_get months, any_some, decide_eq_true_eq] at inside
    have short : pTime.cDaysInMonth ≤ 31 := daysInMonth_le _ _
    rw [RtTime.yearDay_eq months (by omega) (by omega)] at yearDay
    obtain ⟨date, fields, -⟩ :=
      RtTime.exists_hasDate months (by omega) inside (some.inj yearDay).symm
    exact ⟨date, fields⟩
  · rintro ⟨date, year, month, day, yearDay⟩
    have months : 1 ≤ pTime.u8Month ∧ pTime.u8Month ≤ 12 := month ▸ date.inYear
    have days := date.inMonth
    have length : pTime.cDaysInMonth = daysInMonth (IsLeap date.year) date.month := by
      rw [RtTime.cDaysInMonth, month]
      simp only [year]
    have short := daysInMonth_le (IsLeap date.year) date.month
    rw [g_acDays_get months, any_some, decide_eq_true_eq, length, day,
      RtTime.yearDay_eq months (by omega) (by omega), yearDay, day]
    refine ⟨⟨⟨⟨by omega, by omega⟩, months.2⟩, days.2⟩, ?_⟩
    simp only [year, month, Date.dayOfYear]

theorem monthMeant_carry (month : pTime.u8Month ≠ 0) :
    (carryMonths pTime).monthStart = pTime.monthMeant := by
  obtain ⟨year, month', -⟩ := carryMonths_eq (Nat.pos_of_ne_zero month)
  simp only [RtTime.monthStart, year, month', RtTime.monthMeant, Nat.add_sub_cancel]

/-- What becomes of a month and its day. -/
theorem fixDate_month (none : pTime.u16YearDay = 0) (month : pTime.u8Month ≠ 0)
    (day : pTime.u8MonthDay ≠ 0) : ∃ pTime', fixDate pTime = some pTime' ∧ pTime.SameTime pTime' ∧
      ((pTime.CarriesWell ∧ ∃ date, pTime'.HasDate date ∧ date.dayNumber = pTime.dayMeant) ∨
        (¬ pTime.CarriesWell ∧ (pTime'.Past 0 ∨
          ∃ date, pTime'.HasDate date ∧ date.dayNumber ≠ pTime.dayMeant))) := by
  have start := monthMeant_carry month
  obtain ⟨-, months, day', same⟩ := carryMonths_eq (Nat.pos_of_ne_zero month)
  have meant : (carryMonths pTime).monthDayNumber = pTime.dayMeant := by
    rw [RtTime.monthDayNumber, start, day', RtTime.dayMeant, if_pos none]
  have well : pTime.CarriesWell ↔
      ¬ ReachesMarch (carryMonths pTime).monthStart (carryMonths pTime).monthDayNumber := by
    rw [RtTime.CarriesWell, if_pos none, start, meant]
  obtain ⟨walk, walked, same', months', days', ends⟩ :=
    carryDays_spec (show 1 ≤ (carryMonths pTime).u8Month ∧ _ by omega) (by omega)
  have short : walk.cDaysInMonth ≤ 31 := daysInMonth_le _ _
  have few : walk.u8MonthDay ≤ walk.cDaysInMonth + 1 := by
    cases ends <;> omega
  have yearDay := RtTime.yearDay_eq months' days' (by omega)
  have dated (inside : walk.u8MonthDay ≤ walk.cDaysInMonth) :
      ∃ date, ({ walk with u16YearDay := daysBefore (IsLeap walk.i32Year) (walk.u8Month - 1) +
        walk.u8MonthDay } : RtTime).HasDate date ∧ date.dayNumber = walk.monthDayNumber :=
    RtTime.exists_hasDate months' days' inside rfl
  refine ⟨{ walk with u16YearDay := daysBefore (IsLeap walk.i32Year) (walk.u8Month - 1) +
    walk.u8MonthDay }, ?_, ⟨(same.trans same').hour, (same.trans same').minute,
    (same.trans same').second, (same.trans same').nanosecond⟩, ?_⟩
  · rw [fixDate, if_pos none, if_pos ⟨month, day⟩, walked, bind_eq_bind, bind_some, yearDay]
    rfl
  · rw [well, ← meant, not_not]
    cases ends with
    | right inside number safe =>
      obtain ⟨date, fields, day⟩ := dated inside
      exact .inl ⟨safe, date, fields, day.trans number⟩
    | past beyond march =>
      exact .inr ⟨march, .inl ⟨months', Nat.lt_of_lt_of_eq (Nat.lt_succ_self _) beyond.symm,
        Nat.le_trans few (Nat.succ_le_succ short), rfl⟩⟩
    | early inside number march =>
      obtain ⟨date, fields, day⟩ := dated inside
      exact .inr ⟨march, .inr ⟨date, fields, by omega⟩⟩

/-- What becomes of a day of the year. -/
theorem fixDate_yearDay (given : pTime.u16YearDay ≠ 0) :
    ∃ pTime', fixDate pTime = some pTime' ∧ pTime.SameTime pTime' ∧
      ((pTime.CarriesWell ∧ ∃ date, pTime'.HasDate date ∧ date.dayNumber = pTime.dayMeant) ∨
        (¬ pTime.CarriesWell ∧ (pTime'.Past 0 ∨
          ∃ date, pTime'.HasDate date ∧ date.dayNumber ≠ pTime.dayMeant))) := by
  have meant : pTime.dayMeant = pTime.yearDayNumber := if_neg given
  rw [fixDate, if_neg given, RtTime.CarriesWell, if_neg given]
  by_cases confirmed : pTime.fMatch = true
  · obtain ⟨date, fields⟩ := fMatch_iff.mp confirmed
    refine ⟨pTime, if_pos confirmed, .refl pTime, .inl ⟨.inl ⟨date, fields⟩, date, fields, ?_⟩⟩
    rw [meant, RtTime.yearDayNumber, fields.year, fields.yearDay, Date.dayNumber]
  · rw [if_neg confirmed]
    obtain ⟨first, last, number, same⟩ := carryYears_spec (Nat.pos_of_ne_zero given)
    obtain ⟨date, year, yearDay⟩ := Date.exists_dayOfYear (carryYears pTime).i32Year first last
    have dayNumber : date.dayNumber = pTime.dayMeant := by
      rw [meant, ← number, RtTime.yearDayNumber, ← year, ← yearDay, Date.dayNumber]
    have months := date.inYear
    have days := date.inMonth
    have short := daysInMonth_le (IsLeap date.year) date.month
    have sum : date.dayOfYear = daysBefore (IsLeap date.year) (date.month - 1) + date.day := rfl
    have search := searchMonth_of_date date year.symm
    have off {month : Nat} (inside : month < 13) : (carryYears pTime).paiDayOfYear[month]? = _ :=
      RtTime.paiDayOfYear_get inside
    simp only [bind_eq_bind, ← yearDay, search, bind_some]
    by_cases begins : date.day = 1 ∧ date.month ≠ 1
    · obtain ⟨month, eq⟩ : ∃ month, date.month = month + 2 := ⟨date.month - 2, by omega⟩
      have before : daysBefore (IsLeap date.year) (month + 1) = _ + _ := rfl
      have short' := daysInMonth_le (IsLeap date.year) (month + 1)
      have md : uint 8 ((date.dayOfYear : Int) -
          ((daysBefore (IsLeap date.year) month : Int) + 1) + 1) =
          daysInMonth (IsLeap date.year) (month + 1) + 1 := by
        rw [eq, show month + 2 - 1 = month + 1 by omega] at sum
        unfold uint
        omega
      have unconfirmed : ¬ ((∃ date, pTime.HasDate date) ∨
          ∀ date : Date, date.dayNumber = pTime.dayMeant → date.day = 1 → date.month = 1) := by
        rintro (fields | january)
        · exact confirmed (fMatch_iff.mpr fields)
        · exact begins.2 (january date dayNumber begins.1)
      rw [if_pos begins, eq, show month + 2 - 1 - 1 = month by omega, off (by omega),
        bind_some, ← year, md]
      refine ⟨_, rfl, ⟨same.hour, same.minute, same.second, same.nanosecond⟩,
        .inr ⟨unconfirmed, .inl ⟨?_, ?_, ?_, ?_⟩⟩⟩
      · exact ⟨Nat.le_add_left 1 month, by simp only; omega⟩
      · simp only [RtTime.cDaysInMonth]
        exact Nat.lt_succ_self _
      · simp only
        omega
      · rw [eq, begins.1] at sum
        exact sum.trans (congrArg (· + 1) before)
    · have md : uint 8 ((date.dayOfYear : Int) -
          ((daysBefore (IsLeap date.year) (date.month - 1) : Int) + 1) + 1) = date.day := by
        unfold uint
        omega
      have january (date' : Date) (sameDay : date'.dayNumber = pTime.dayMeant)
          (first' : date'.day = 1) : date'.month = 1 := by
        obtain rfl := Date.dayNumber_injective (sameDay.trans dayNumber.symm)
        by_contra later
        exact begins ⟨first', later⟩
      rw [if_neg begins, off (by omega), bind_some, ← year, md]
      exact ⟨_, rfl, ⟨same.hour, same.minute, same.second, same.nanosecond⟩,
        .inl ⟨.inr january, date, ⟨rfl, rfl, rfl, rfl⟩, dayNumber⟩⟩

end VBox.Runtime.Time
