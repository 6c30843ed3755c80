import VBox.Runtime.Time

/-!
Exploding and imploding are inverse, and exploding yields the date of the Gregorian calendar.
-/

namespace VBox.Runtime.Time

open VBox.Lib.Gregorian

/-! ### Divisions -/

theorem int32_eq {x : Int} (low : -2 ^ 31 ≤ x) (high : x < 2 ^ 31) : int32 x = x :=
  Int.bmod_eq_of_le (by simpa using low) (by simpa using high)

theorem uint_emod (bits : Nat) (x : Int) {unit : Int} (pos : 0 < unit) (fits : unit ≤ 2 ^ bits) :
    (uint bits (x % unit) : Int) = x % unit := by
  have least := Int.emod_nonneg x (by omega : unit ≠ 0)
  have most := Int.emod_lt_of_pos x pos
  rw [uint, Int.emod_eq_of_lt least (lt_of_lt_of_le most fits), Int.toNat_of_nonneg least]

/-- The fix makes the division round down. -/
theorem divide_eq (x : Int) {unit : Int} (pos : 0 < unit) (small : unit < 2 ^ 31) :
    divide x unit = { div := x / unit, rem := x % unit } := by
  have least := Int.emod_nonneg x (by omega : unit ≠ 0)
  have most := Int.emod_lt_of_pos x pos
  have sign : unit.sign = 1 := Int.sign_eq_one_of_pos pos
  by_cases whole : 0 ≤ x ∨ unit ∣ x
  · have rem : x.tmod unit = x % unit := by rw [Int.tmod_eq_emod, if_pos whole]; omega
    have div : x.tdiv unit = x / unit := by rw [Int.tdiv_eq_ediv, if_pos whole]; omega
    rw [divide, rem, div, int32_eq (by omega) (by omega)]
    exact if_neg (by omega)
  · have rem : x.tmod unit = x % unit - unit := by rw [Int.tmod_eq_emod, if_neg whole]; omega
    have div : x.tdiv unit = x / unit + 1 := by rw [Int.tdiv_eq_ediv, if_neg whole, sign]
    rw [divide, rem, div, int32_eq (by omega) (by omega)]
    refine (if_pos (by omega)).trans ?_
    rw [Int.add_sub_cancel, Int.sub_add_cancel]

theorem rtTimeIsLeapYear_eq (i32Year : Int) :
    rtTimeIsLeapYear i32Year = decide (IsLeap i32Year) := by
  have zero (n : Int) : i32Year.tmod n = 0 ↔ i32Year % n = 0 :=
    Int.dvd_iff_tmod_eq_zero.symm.trans Int.dvd_iff_emod_eq_zero
  rw [Bool.eq_iff_iff, decide_eq_true_iff]
  simp only [rtTimeIsLeapYear, IsLeap, Bool.and_eq_true, Bool.or_eq_true, beq_iff_eq, bne_iff_ne,
    zero, ne_eq]

/-! ### The tables -/

theorem g_aoffYear_eq : g_aoffYear = (List.range 600).map fun i : Nat => yearStart (1670 + i) := by
  decide +kernel

theorem aiDayOfYear_eq (year : Int) : aiDayOfYear (rtTimeIsLeapYear year) =
    (List.range 13).map fun month => (daysBefore (IsLeap year) month : Int) + 1 := by
  rw [rtTimeIsLeapYear_eq]
  by_cases leap : IsLeap year <;>
    simp [leap, aiDayOfYear, g_aiDayOfYear, g_aiDayOfYearLeap, List.range_succ, daysBefore,
      daysInMonth]

section Search

variable {f : Nat → Int} {n y : Nat} {d : Int}

/-- Upwards the search stops at the last value not above, or where it starts behind it. -/
theorem searchUp_eq (mono : StrictMono f) {i : Nat} (least : i < y → f y ≤ d)
    (most : d < f (y + 1)) (inside : y + 1 < n) (start : i + 1 < n) :
    searchUp ((List.range n).map f) d i = some (max i y) := by
  induction rest : y - i generalizing i with
  | zero =>
    have above : ¬ f (i + 1) ≤ d := by
      have := mono.monotone (show y + 1 ≤ i + 1 by omega)
      omega
    rw [searchUp, dif_pos (by simpa using start), if_neg (by simpa using above),
      max_eq_left (by omega)]
  | succ rest ih =>
    have below : f (i + 1) ≤ d := (mono.monotone (by omega)).trans (least (by omega))
    rw [searchUp, dif_pos (by simpa using start), if_pos (by simpa using below),
      ih (fun _ => least (by omega)) (by omega) (by omega), max_eq_right (by omega),
      max_eq_right (by omega)]

theorem searchDown_eq (mono : StrictMono f) (least : f y ≤ d) (most : d < f (y + 1)) {i : Nat}
    (start : y ≤ i) (inside : i < n) : searchDown ((List.range n).map f) d i = some y := by
  induction i with
  | zero =>
    obtain rfl : y = 0 := by omega
    rw [searchDown, if_pos]
    simpa [inside] using least
  | succ i ih =>
    rw [searchDown, dif_pos (by simpa using inside)]
    by_cases reached : y = i + 1
    · subst reached
      rw [if_neg (by simpa using least)]
    · have := mono.monotone (show y + 1 ≤ i + 1 by omega)
      rw [if_pos (by simp; omega), ih (by omega) (by omega)]

end Search

/-- The two remainders of the code make one that is never negative. -/
theorem weekDay_eq (day : Int) : uint 8 ((day.tmod 7 + 3 + 7).tmod 7) = ((day + 3) % 7).toNat := by
  have least : -7 < day.tmod 7 := Int.lt_tmod_of_pos _ (by decide)
  have whole := Int.tmod_add_mul_tdiv day 7
  rw [Int.tmod_eq_emod_of_nonneg (by omega), uint]
  omega

/-! ### What the fields say -/

/-- The fields of a day agree with one another. -/
structure IsDate (pTime : RtTime) (date : Date) : Prop where
  year : pTime.i32Year = date.year
  month : pTime.u8Month = date.month
  weekDay : pTime.u8WeekDay = date.weekDay
  yearDay : pTime.u16YearDay = date.dayOfYear
  monthDay : pTime.u8MonthDay = date.day
  leap : pTime.fFlags &&& RTTIME_FLAGS_LEAP_YEAR ≠ 0 ↔ IsLeap date.year
  common : pTime.fFlags &&& RTTIME_FLAGS_COMMON_YEAR ≠ 0 ↔ ¬ IsLeap date.year

structure IsTimeOfDay (pTime : RtTime) : Prop where
  hour : pTime.u8Hour < 24
  minute : pTime.u8Minute < 60
  second : pTime.u8Second < 60
  nanosecond : pTime.u32Nanosecond < 1000000000

def nanosecondsPerDay : Int := 86400000000000

theorem IsTimeOfDay.bounds {pTime : RtTime} (time : IsTimeOfDay pTime) :
    0 ≤ pTime.i64Nanos ∧ pTime.i64Nanos < nanosecondsPerDay := by
  obtain ⟨hour, minute, second, nanosecond⟩ := time
  unfold RtTime.i64Nanos nanosecondsPerDay
  omega

/-- The days of the years in the table. -/
def InTable (day : Int) : Prop :=
  yearStart 1670 ≤ day ∧ day < yearStart 2269

theorem yearStart_from (first : Int) : StrictMono fun i : Nat => yearStart (first + i) :=
  fun i j lt => yearStart_strictMono (by omega)

theorem dayOfYear_strictMono (year : Int) :
    StrictMono fun month => (daysBefore (IsLeap year) month : Int) + 1 :=
  fun i j lt => by
    have := daysBefore_strictMono (IsLeap year) lt
    simpa using this

theorem g_aoffYear_get {i : Nat} (inside : i < 600) :
    g_aoffYear[i]? = some (yearStart (1670 + i)) := by
  simp [g_aoffYear_eq, inside]

theorem aiDayOfYear_get (year : Int) {month : Nat} (inside : month < 13) :
    (aiDayOfYear (rtTimeIsLeapYear year))[month]? =
      some ((daysBefore (IsLeap year) month : Int) + 1) := by
  simp [aiDayOfYear_eq, inside]

/-! ### Exploding -/

/-- The remainders of the divisions are a time of the day. -/
theorem timeOfDay_eq {pTime : RtTime} {t : Int}
    (nanosecond : pTime.u32Nanosecond = uint 32 (t % 1000000000))
    (second : pTime.u8Second = uint 8 (t / 1000000000 % 60))
    (minute : pTime.u8Minute = uint 8 (t / 1000000000 / 60 % 60))
    (hour : pTime.u8Hour = uint 8 (t / 1000000000 / 60 / 60 % 24)) :
    IsTimeOfDay pTime ∧ t / nanosecondsPerDay * nanosecondsPerDay + pTime.i64Nanos = t := by
  have n : (uint 32 (t % 1000000000) : Int) = _ := uint_emod 32 t (by decide) (by decide)
  have s : (uint 8 (t / 1000000000 % 60) : Int) = _ := uint_emod 8 _ (by decide) (by decide)
  have m : (uint 8 (t / 1000000000 / 60 % 60) : Int) = _ := uint_emod 8 _ (by decide) (by decide)
  have h : (uint 8 (t / 1000000000 / 60 / 60 % 24) : Int) = _ :=
    uint_emod 8 _ (by decide) (by decide)
  rw [← nanosecond] at n
  rw [← second] at s
  rw [← minute] at m
  rw [← hour] at h
  refine ⟨⟨by omega, by omega, by omega, by omega⟩, ?_⟩
  unfold RtTime.i64Nanos nanosecondsPerDay
  push_cast
  rw [n, s, m, h]
  omega

/-- The search over the years finds the year of the date. -/
theorem search_year {date : Date} (inTable : InTable date.dayNumber) {start : Nat}
    (inside : start + 1 < 600) : ∃ iYear : Nat, iYear < 600 ∧ date.year = 1670 + iYear ∧
      (searchUp g_aoffYear date.dayNumber start).bind (searchDown g_aoffYear date.dayNumber) =
        some iYear := by
  obtain ⟨least, most⟩ := date.dayNumber_bounds
  have from' := yearStart_strictMono.lt_iff_lt.mp (lt_of_le_of_lt inTable.1 most)
  have until' := yearStart_strictMono.lt_iff_lt.mp (lt_of_le_of_lt least inTable.2)
  obtain ⟨iYear, year⟩ : ∃ iYear : Nat, date.year = 1670 + iYear :=
    ⟨(date.year - 1670).toNat, by omega⟩
  rw [year] at least most
  have up := searchUp_eq (yearStart_from 1670) (fun _ => least)
    (by rw [Nat.cast_succ, ← Int.add_assoc]; exact most) (by omega) inside
  have down := searchDown_eq (yearStart_from 1670) least
    (by rw [Nat.cast_succ, ← Int.add_assoc]; exact most) (le_max_right start iYear)
    (n := 600) (max_lt (by omega) (by omega))
  rw [← g_aoffYear_eq] at up down
  exact ⟨iYear, by omega, year, by rw [up, Option.bind_some, down]⟩

/-- The search over the months finds the month of the date. -/
theorem search_month (date : Date) :
    searchUp (aiDayOfYear (rtTimeIsLeapYear date.year)) (date.dayOfYear - 1 + 1)
      (((date.dayOfYear : Int) - 1).tdiv 32).toNat = some (date.month - 1) := by
  have pos := date.dayOfYear_pos
  obtain ⟨month, eq⟩ : ∃ month, date.month = month + 1 :=
    ⟨date.month - 1, by have := date.inYear; omega⟩
  have last := date.inYear.2
  have day : date.dayOfYear = daysBefore (IsLeap date.year) month + date.day := by
    rw [Date.dayOfYear, eq, Nat.add_sub_cancel]
  have inMonth := date.inMonth
  have before := date.dayOfYear_le_daysBefore
  have start := daysBefore_le (IsLeap date.year) (month + 1)
  rw [eq] at before last
  rw [Int.tdiv_eq_ediv_of_nonneg (by omega), aiDayOfYear_eq,
    searchUp_eq (dayOfYear_strictMono date.year) (y := month) (fun _ => by omega) (by omega)
      (by omega) (by omega), eq, Nat.add_sub_cancel, max_eq_right (by omega)]

theorem mem_flags (leap : Bool) :
    let fFlags := RTTIME_FLAGS_TYPE_UTC |||
      if leap then RTTIME_FLAGS_LEAP_YEAR else RTTIME_FLAGS_COMMON_YEAR
    (fFlags &&& RTTIME_FLAGS_LEAP_YEAR ≠ 0 ↔ leap = true) ∧
      (fFlags &&& RTTIME_FLAGS_COMMON_YEAR ≠ 0 ↔ leap = false) ∧
      fFlags &&& RTTIME_FLAGS_TYPE_MASK = RTTIME_FLAGS_TYPE_UTC := by
  cases leap <;> decide

/-- An exploded time: a date, a time of the day, and no offset. -/
structure Exploded (t : Int) (pTime : RtTime) (date : Date) : Prop where
  isDate : IsDate pTime date
  timeOfDay : IsTimeOfDay pTime
  instant : date.dayNumber * nanosecondsPerDay + pTime.i64Nanos = t
  utc : pTime.fFlags &&& RTTIME_FLAGS_TYPE_MASK = RTTIME_FLAGS_TYPE_UTC
  offUTC : pTime.offUTC = 0

theorem explode_eq (pTimeSpec : RtTimeSpec) {date : Date} (day : date.dayNumber =
      pTimeSpec.i64NanosecondsRelativeToUnixEpoch / nanosecondsPerDay) :
    ∃ pTime, RTTimeExplode pTimeSpec = some pTime ∧
      Exploded pTimeSpec.i64NanosecondsRelativeToUnixEpoch pTime date := by
  obtain ⟨t, least, most⟩ := pTimeSpec
  change date.dayNumber = t / 86400000000000 at day
  have nanoseconds : divide t 1000000000 = _ := divide_eq t (by decide) (by decide)
  have seconds : divide (t / 1000000000) 60 = _ := divide_eq _ (by decide) (by decide)
  have minutes : divide (t / 1000000000 / 60) 60 = _ := divide_eq _ (by decide) (by decide)
  have hours : divide (t / 1000000000 / 60 / 60) 24 = _ := divide_eq _ (by decide) (by decide)
  have narrow : int32 (t / 1000000000 / 60) = t / 1000000000 / 60 :=
    int32_eq (by omega) (by omega)
  have days : t / 1000000000 / 60 / 60 / 24 = date.dayNumber := by omega
  have inTable : InTable date.dayNumber := by
    unfold InTable yearStart
    omega
  have start : uint 32 (OFF_YEAR_IDX_EPOCH + date.dayNumber.tdiv 365) + 1 < 600 := by
    have sign : Int.sign 365 = 1 := rfl
    rw [Int.tdiv_eq_ediv, sign]
    unfold uint OFF_YEAR_IDX_EPOCH
    split <;> omega
  obtain ⟨iYear, inside, year, search⟩ := search_year inTable start
  obtain ⟨above, up, down⟩ := Option.bind_eq_some_iff.mp search
  have iDay : date.dayNumber - yearStart (1670 + iYear) = date.dayOfYear - 1 := by
    rw [← year, Date.dayNumber]
    omega
  have wide : int32 (iYear + OFF_YEAR_IDX_0_YEAR) = date.year := by
    rw [year, int32_eq] <;> unfold OFF_YEAR_IDX_0_YEAR <;> omega
  have months := date.inYear
  have offMonth : (aiDayOfYear (rtTimeIsLeapYear date.year))[date.month - 1]? = _ :=
    aiDayOfYear_get date.year (by omega)
  have days' := date.inMonth
  have short := daysInMonth_le (IsLeap date.year) date.month
  have yearDays := date.dayOfYear_le
  have yearLength : daysInYear date.year ≤ 366 := by unfold daysInYear; split <;> decide
  have sum : date.dayOfYear = daysBefore (IsLeap date.year) (date.month - 1) + date.day := rfl
  have month : uint 8 ((date.month - 1 : Nat) + 1) = date.month := by unfold uint; omega
  have yearDay : uint 16 (date.dayOfYear - 1 + 1) = date.dayOfYear := by unfold uint; omega
  have monthDay : uint 8 (date.dayOfYear - 1 + 1 -
      ((daysBefore (IsLeap date.year) (date.month - 1) : Int) + 1) + 1) = date.day := by
    unfold uint
    omega
  obtain ⟨leap, common, utc⟩ := mem_flags (rtTimeIsLeapYear date.year)
  refine ⟨{
    i32Year := date.year
    u8Month := date.month
    u8WeekDay := date.weekDay
    u16YearDay := date.dayOfYear
    u8MonthDay := date.day
    u8Hour := uint 8 (t / 1000000000 / 60 / 60 % 24)
    u8Minute := uint 8 (t / 1000000000 / 60 % 60)
    u8Second := uint 8 (t / 1000000000 % 60)
    u32Nanosecond := uint 32 (t % 1000000000)
    fFlags := RTTIME_FLAGS_TYPE_UTC ||| if rtTimeIsLeapYear date.year then
      RTTIME_FLAGS_LEAP_YEAR else RTTIME_FLAGS_COMMON_YEAR
    offUTC := 0 }, ?_, ?_⟩
  · simp only [RTTimeExplode, nanoseconds, seconds, narrow, minutes, hours, days, up, down,
      g_aoffYear_get inside, iDay, wide, search_month date, offMonth, Option.bind_eq_bind,
      Option.bind_some, month, weekDay_eq, yearDay, monthDay, Date.weekDay]
  · obtain ⟨timeOfDay, instant⟩ : IsTimeOfDay (⟨date.year, date.month, date.weekDay,
      date.dayOfYear, date.day, _, _, _, _, _, 0⟩ : RtTime) ∧ _ := timeOfDay_eq rfl rfl rfl rfl
    refine ⟨⟨rfl, rfl, rfl, rfl, rfl, leap.trans ?_, common.trans ?_⟩, timeOfDay, ?_, utc, rfl⟩
    · rw [rtTimeIsLeapYear_eq, decide_eq_true_iff]
    · rw [rtTimeIsLeapYear_eq, decide_eq_false_iff_not]
    · rw [day]
      exact instant

/-! ### Imploding -/

/-- The day the year and the day of the year name. -/
def RtTime.yearDayNumber (pTime : RtTime) : Int :=
  yearStart pTime.i32Year + pTime.u16YearDay - 1

theorem wrap_eq {x : Int} (low : -2 ^ 63 ≤ x) (high : x < 2 ^ 63) :
    (RtTimeSpec.wrap x).i64NanosecondsRelativeToUnixEpoch = x :=
  Int.bmod_eq_of_le (by simpa using low) (by simpa using high)

theorem leapDays_eq (year : Int) :
    (if rtTimeIsLeapYear year then 366 else 365) = daysInYear year := by
  simp only [rtTimeIsLeapYear_eq, decide_eq_true_eq, daysInYear]

theorem leapDays_eq_int (year : Int) :
    (if rtTimeIsLeapYear year then 366 else 365 : Int) = daysInYear year := by
  rw [← leapDays_eq]
  split <;> rfl

theorem implode_iff {pTime : RtTime} {pTimeSpec : RtTimeSpec} :
    RTTimeImplode pTime = some pTimeSpec ↔ IsTimeOfDay pTime ∧ 1 ≤ pTime.u16YearDay ∧
        pTime.u16YearDay ≤ daysInYear pTime.i32Year ∧ pTimeSpec.i64NanosecondsRelativeToUnixEpoch =
          pTime.yearDayNumber * nanosecondsPerDay + pTime.i64Nanos := by
  rw [RTTimeImplode, leapDays_eq]
  have get (low : RTTIME_MIN_YEAR ≤ pTime.i32Year) (high : pTime.i32Year ≤ RTTIME_MAX_YEAR) :
      g_aoffYear[(pTime.i32Year - OFF_YEAR_IDX_0_YEAR).toNat]? =
        some (yearStart pTime.i32Year) := by
    unfold RTTIME_MIN_YEAR at low
    unfold RTTIME_MAX_YEAR at high
    unfold OFF_YEAR_IDX_0_YEAR
    rw [g_aoffYear_get (by omega)]
    congr 2
    omega
  constructor
  · intro imploded
    split at imploded
    · rename_i valid
      obtain ⟨nanosecond, second, minute, hour, first, last, high, low⟩ := valid
      have time : IsTimeOfDay pTime := ⟨hour, minute, second, nanosecond⟩
      have nanos := time.bounds
      rw [get low high, Option.bind_eq_bind, Option.bind_some] at imploded
      dsimp only at imploded
      split at imploded
      · rename_i bounds
        refine ⟨time, first, last, ?_⟩
        rw [← Option.some.inj imploded]
        unfold RTTIME_MAX_DAY RTTIME_MIN_DAY RTTIME_MAX_DAY_NANO RTTIME_MIN_DAY_NANO at bounds
        unfold RtTime.yearDayNumber
        unfold nanosecondsPerDay at nanos ⊢
        rw [wrap_eq (by omega) (by omega)]
        omega
      · cases imploded
    · cases imploded
  · rintro ⟨time, first, last, instant⟩
    have nanos := time.bounds
    have range := pTimeSpec.range
    have next := yearStart_succ pTime.i32Year
    unfold RtTime.yearDayNumber at instant
    unfold nanosecondsPerDay at nanos instant
    have start : yearStart RTTIME_MIN_YEAR < yearStart (pTime.i32Year + 1) := by
      have : yearStart RTTIME_MIN_YEAR = -107015 := rfl
      omega
    have stop : yearStart pTime.i32Year < yearStart (RTTIME_MAX_YEAR + 1) := by
      have : yearStart (RTTIME_MAX_YEAR + 1) = 107016 := rfl
      omega
    have low := yearStart_strictMono.lt_iff_lt.mp start
    have high := yearStart_strictMono.lt_iff_lt.mp stop
    rw [if_pos ⟨time.nanosecond, time.second, time.minute, time.hour, first, last,
      by omega, by omega⟩, get (by omega) (by omega), Option.bind_eq_bind, Option.bind_some]
    unfold RTTIME_MAX_DAY RTTIME_MIN_DAY RTTIME_MAX_DAY_NANO RTTIME_MIN_DAY_NANO
    refine (if_pos (by omega)).trans ?_
    congr 1
    ext
    rw [wrap_eq (by omega) (by omega)]
    omega

/-- A time of the day is its nanoseconds since midnight. -/
theorem IsTimeOfDay.inj {pTime pTime' : RtTime} (time : IsTimeOfDay pTime)
    (time' : IsTimeOfDay pTime') (same : pTime.i64Nanos = pTime'.i64Nanos) :
    pTime.u8Hour = pTime'.u8Hour ∧ pTime.u8Minute = pTime'.u8Minute ∧
      pTime.u8Second = pTime'.u8Second ∧ pTime.u32Nanosecond = pTime'.u32Nanosecond := by
  obtain ⟨hour, minute, second, nanosecond⟩ := time
  obtain ⟨hour', minute', second', nanosecond'⟩ := time'
  unfold RtTime.i64Nanos at same
  omega

/-! ### The round trips -/

theorem explode_implode_inverse :
    (∀ pTimeSpec : RtTimeSpec, ∃ pTime date, RTTimeExplode pTimeSpec = some pTime ∧
      Exploded pTimeSpec.i64NanosecondsRelativeToUnixEpoch pTime date ∧
      RTTimeImplode pTime = some pTimeSpec) ∧
    ∀ pTime pTimeSpec, RTTimeImplode pTime = some pTimeSpec →
      ∃ pTime', RTTimeExplode pTimeSpec = some pTime' ∧
        pTime'.i32Year = pTime.i32Year ∧ pTime'.u16YearDay = pTime.u16YearDay ∧
        pTime'.u8Hour = pTime.u8Hour ∧ pTime'.u8Minute = pTime.u8Minute ∧
        pTime'.u8Second = pTime.u8Second ∧ pTime'.u32Nanosecond = pTime.u32Nanosecond := by
  constructor
  · intro pTimeSpec
    obtain ⟨date, day⟩ := Date.exists_dayNumber
      (pTimeSpec.i64NanosecondsRelativeToUnixEpoch / nanosecondsPerDay)
    obtain ⟨pTime, exploded, fields⟩ := explode_eq pTimeSpec day
    have number : pTime.yearDayNumber = date.dayNumber := by
      rw [RtTime.yearDayNumber, fields.isDate.year, fields.isDate.yearDay, Date.dayNumber]
    refine ⟨pTime, date, exploded, fields, implode_iff.mpr ⟨fields.timeOfDay, ?_, ?_, ?_⟩⟩
    · rw [fields.isDate.yearDay]
      exact date.dayOfYear_pos
    · rw [fields.isDate.yearDay, fields.isDate.year]
      exact date.dayOfYear_le
    · rw [number, fields.instant]
  · intro pTime pTimeSpec imploded
    obtain ⟨time, first, last, instant⟩ := implode_iff.mp imploded
    obtain ⟨date, day⟩ := Date.exists_dayNumber
      (pTimeSpec.i64NanosecondsRelativeToUnixEpoch / nanosecondsPerDay)
    obtain ⟨pTime', exploded, fields⟩ := explode_eq pTimeSpec day
    have nanos := time.bounds
    have nanos' := fields.timeOfDay.bounds
    have instant' := fields.instant
    unfold nanosecondsPerDay at instant instant' nanos nanos'
    have number : date.dayNumber = pTime.yearDayNumber := by omega
    have next := yearStart_succ pTime.i32Year
    have bounds := date.dayNumber_bounds
    unfold RtTime.yearDayNumber at number
    have year : date.year = pTime.i32Year :=
      year_unique bounds.1 bounds.2 (by omega) (by omega)
    have yearDay : date.dayOfYear = pTime.u16YearDay := by
      have sum : date.dayNumber = yearStart date.year + date.dayOfYear - 1 := rfl
      rw [year] at sum
      omega
    have sameTime : pTime'.i64Nanos = pTime.i64Nanos := by
      unfold RtTime.yearDayNumber at instant
      omega
    obtain ⟨hour, minute, second, nanosecond⟩ := fields.timeOfDay.inj time sameTime
    exact ⟨pTime', exploded, fields.isDate.year.trans year, fields.isDate.yearDay.trans yearDay,
      hour, minute, second, nanosecond⟩

/-- The epoch. -/
theorem explode_implode_inverse_epoch :
    ∃ pTime', RTTimeExplode (RtTimeSpec.wrap 0) = some pTime' ∧ pTime'.i32Year = 1970 := by
  obtain ⟨pTime', exploded, year, -⟩ := explode_implode_inverse.2
    ⟨1970, 1, 3, 1, 1, 0, 0, 0, 0, RTTIME_FLAGS_TYPE_UTC, 0⟩ (RtTimeSpec.wrap 0)
    (implode_iff.mpr ⟨⟨by decide, by decide, by decide, by decide⟩, by decide, by decide,
      by decide⟩)
  exact ⟨pTime', exploded, year⟩

end VBox.Runtime.Time
