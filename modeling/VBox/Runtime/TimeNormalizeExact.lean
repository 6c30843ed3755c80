import VBox.Runtime.TimeNormalizeDate

/-!
`RTTimeNormalize` as a whole: carrying the time of the day, the flags and the day of the week,
and exactly when the date it ends with is the one that was meant.
-/

namespace VBox.Runtime.Time

open VBox.Lib.Gregorian Option

/-! ### Carrying -/

theorem carry_eq {unit : Nat} (pos : 0 < unit) (low high : Nat) :
    carry unit pos low high = (low % unit, high + low / unit) := by
  induction low, high using carry.induct unit pos with
  | case1 low high more ih =>
    rw [carry, if_pos more, ih, Nat.mod_eq_sub_mod more, Nat.div_eq_sub_div pos more]
    congr 1
    omega
  | case2 low high few =>
    rw [carry, if_neg few, Nat.mod_eq_of_lt (by omega), Nat.div_eq_of_lt (by omega)]
    rfl

section Days

variable {pTime : RtTime}

/-- A date goes on to the next. -/
theorem incDay_hasDate {date : Date} (fields : pTime.HasDate date) :
    ∃ pTime' date', pTime.incDay = some pTime' ∧ pTime'.HasDate date' ∧
      date'.dayNumber = date.dayNumber + 1 := by
  obtain ⟨year, month, day, yearDay⟩ := fields
  have months := date.inYear
  have days := date.inMonth
  have short := daysInMonth_le (IsLeap date.year) date.month
  have total := date.dayOfYear_le_daysBefore
  have few := daysBefore_le (IsLeap date.year) date.month
  have sum : date.dayOfYear = daysBefore (IsLeap date.year) (date.month - 1) + date.day := rfl
  have length : daysBefore (IsLeap date.year) date.month =
      daysBefore (IsLeap date.year) (date.month - 1) +
        daysInMonth (IsLeap date.year) date.month := by
    obtain ⟨m, eq⟩ : ∃ m, date.month = m + 1 := ⟨date.month - 1, by omega⟩
    rw [eq, Nat.add_sub_cancel, daysBefore]
  have number : date.dayNumber = yearStart date.year + date.dayOfYear - 1 := rfl
  have yearDay' : uint 16 (date.dayOfYear + 1) = date.dayOfYear + 1 := by unfold uint; omega
  rw [RtTime.incDay, RtTime.paiDayOfYear_get (by omega), map_some, year, month, yearDay]
  by_cases inside : date.day + 1 ≤ daysInMonth (IsLeap date.year) date.month
  · have day' : uint 8 (date.day + 1) = date.day + 1 := by unfold uint; omega
    rw [if_pos (by omega), yearDay', day, day']
    refine ⟨_, ⟨date.year, date.month, date.day + 1, months, by omega, inside⟩, rfl,
      ⟨rfl, rfl, rfl, by rw [sum]; rfl⟩, ?_⟩
    simp only [Date.dayNumber, Date.dayOfYear]
    omega
  · rw [if_neg (by omega)]
    by_cases last : date.month = 12
    · have whole : daysBefore (IsLeap date.year) date.month = daysInYear date.year := by
        rw [last, daysBefore_twelve]
      have next := yearStart_succ date.year
      rw [if_neg (not_not.mpr last)]
      refine ⟨_, ⟨date.year + 1, 1, 1, by decide, by decide, by rw [daysInMonth]; simp⟩, rfl,
        ⟨congrArg (· + 1) year, rfl, rfl, rfl⟩, ?_⟩
      simp only [Date.dayNumber, Date.dayOfYear, Nat.sub_self, daysBefore]
      omega
    · rw [if_pos last, yearDay']
      have long := le_daysInMonth (IsLeap date.year) (date.month + 1)
      refine ⟨_, ⟨date.year, date.month + 1, 1, by omega, by decide, by omega⟩, rfl,
        ⟨rfl, rfl, rfl, ?_⟩, ?_⟩
      · simp only [Date.dayOfYear, Nat.add_sub_cancel]
        omega
      · simp only [Date.dayNumber, Date.dayOfYear, Nat.add_sub_cancel]
        omega

/-- A day behind its month stays there. -/
theorem incDay_past {slack : Nat} (past : pTime.Past slack) (small : slack < 200) :
    ∃ pTime', pTime.incDay = some pTime' ∧ pTime'.Past (slack + 1) := by
  obtain ⟨months, beyond, few, yearDay⟩ := past
  have length := RtTime.daysBefore_u8Month months
  have before := daysBefore_le (IsLeap pTime.i32Year) (pTime.u8Month - 1)
  have yearDay' : uint 16 (pTime.u16YearDay + 1) = pTime.u16YearDay + 1 := by unfold uint; omega
  have day' : uint 8 (pTime.u8MonthDay + 1) = pTime.u8MonthDay + 1 := by unfold uint; omega
  rw [RtTime.incDay, RtTime.paiDayOfYear_get (by omega), map_some, if_pos (by omega),
    yearDay', day']
  exact ⟨_, rfl, months, Nat.lt_succ_of_lt beyond, by simp only; omega, by simp only; omega⟩

theorem carryHours_hasDate (uHour : Nat) {date : Date} (fields : pTime.HasDate date) :
    ∃ pTime' date', carryHours uHour pTime = some (uHour % 24, pTime') ∧ pTime'.HasDate date' ∧
      date'.dayNumber = date.dayNumber + (uHour / 24 : Nat) := by
  induction uHour using Nat.strong_induction_on generalizing pTime date with
  | _ uHour ih =>
    rw [carryHours]
    by_cases more : uHour ≥ 24
    · obtain ⟨next, date', step, fields', number⟩ := incDay_hasDate fields
      obtain ⟨pTime', date'', rest, fields'', number'⟩ := ih (uHour - 24) (by omega) fields'
      rw [if_pos more, step, bind_some, rest]
      refine ⟨pTime', date'', ?_, fields'', by omega⟩
      rw [Nat.mod_eq_sub_mod more]
    · rw [if_neg more]
      exact ⟨pTime, date, by rw [Nat.mod_eq_of_lt (by omega)], fields, by omega⟩

theorem carryHours_past (uHour : Nat) {slack : Nat} (past : pTime.Past slack)
    (small : slack + uHour / 24 < 200) :
    ∃ pTime', carryHours uHour pTime = some (uHour % 24, pTime') ∧
      pTime'.Past (slack + uHour / 24) := by
  induction uHour using Nat.strong_induction_on generalizing pTime slack with
  | _ uHour ih =>
    rw [carryHours]
    by_cases more : uHour ≥ 24
    · obtain ⟨next, step, past'⟩ := incDay_past past (by omega)
      obtain ⟨pTime', rest, past''⟩ := ih (uHour - 24) (by omega) past' (by omega)
      rw [if_pos more, step, bind_some, rest]
      refine ⟨pTime', by rw [Nat.mod_eq_sub_mod more], ?_⟩
      rwa [show slack + uHour / 24 = slack + 1 + (uHour - 24) / 24 by omega]
    · rw [if_neg more]
      refine ⟨pTime, by rw [Nat.mod_eq_of_lt (by omega)], ?_⟩
      rwa [Nat.div_eq_of_lt (by omega)]

end Days

/-! ### Time of the day -/

section TimeOfDay

variable (pTime : RtTime)

def RtTime.uSecond : Nat := pTime.u8Second + pTime.u32Nanosecond / 1000000000

def RtTime.uMinute : Nat := pTime.u8Minute + pTime.uSecond / 60

def RtTime.uHour : Nat := pTime.u8Hour + pTime.uMinute / 60

/-- Where the hours have been carried. -/
def RtTime.atTime (day : RtTime) : RtTime :=
  { day with
    u32Nanosecond := pTime.u32Nanosecond % 1000000000
    u8Second := pTime.uSecond % 60
    u8Minute := pTime.uMinute % 60
    u8Hour := pTime.uHour % 24 }

variable {pTime}

theorem fixTime_eq {day : RtTime}
    (hours : carryHours pTime.uHour pTime = some (pTime.uHour % 24, day)) :
    fixTime pTime = some (pTime.atTime day) := by
  simp only [fixTime, carry_eq]
  rw [← RtTime.uSecond, ← RtTime.uMinute, ← RtTime.uHour, hours]
  rfl

theorem atTime_isTimeOfDay (day : RtTime) : IsTimeOfDay (pTime.atTime day) :=
  ⟨Nat.mod_lt _ (by decide), Nat.mod_lt _ (by decide), Nat.mod_lt _ (by decide),
    Nat.mod_lt _ (by decide)⟩

/-- What is left of the time of the day, and the days carried. -/
theorem atTime_i64Nanos (day : RtTime) :
    (pTime.uHour / 24 : Nat) * nanosecondsPerDay + (pTime.atTime day).i64Nanos =
      pTime.i64Nanos := by
  simp only [RtTime.i64Nanos, RtTime.atTime, nanosecondsPerDay, RtTime.uHour, RtTime.uMinute,
    RtTime.uSecond]
  omega

/-- A time of the day has nothing to carry. -/
theorem fixTime_of_isTimeOfDay (time : IsTimeOfDay pTime) : fixTime pTime = some pTime := by
  obtain ⟨hour, minute, second, nanosecond⟩ := time
  have seconds : pTime.uSecond = pTime.u8Second := by
    rw [RtTime.uSecond, Nat.div_eq_of_lt nanosecond, Nat.add_zero]
  have minutes : pTime.uMinute = pTime.u8Minute := by
    rw [RtTime.uMinute, seconds, Nat.div_eq_of_lt second, Nat.add_zero]
  have hours : pTime.uHour = pTime.u8Hour := by
    rw [RtTime.uHour, minutes, Nat.div_eq_of_lt minute, Nat.add_zero]
  have stop : carryHours pTime.uHour pTime = some (pTime.uHour % 24, pTime) := by
    rw [carryHours, hours, if_neg (by omega), Nat.mod_eq_of_lt hour]
  rw [fixTime_eq stop, RtTime.atTime, seconds, minutes, hours, Nat.mod_eq_of_lt nanosecond,
    Nat.mod_eq_of_lt second, Nat.mod_eq_of_lt minute, Nat.mod_eq_of_lt hour]

end TimeOfDay

/-! ### Flags -/

section Flags

variable (f : BitVec 32) {set clear : Nat} (apart : set ≠ clear) (low : clear ≠ 1)

/-- One flag for the other, and the type. -/
def exchange (f : BitVec 32) (set clear : Nat) : BitVec 32 :=
  f &&& ~~~BitVec.twoPow 32 clear ||| BitVec.twoPow 32 set ||| BitVec.twoPow 32 1

include apart low

theorem exchange_clear : exchange f set clear &&& BitVec.twoPow 32 clear = 0 := by
  ext i inside
  by_cases at' : i = clear
  · subst at'
    simp [exchange, apart.symm, low]
  · simp [exchange, at']

theorem exchange_exchange : exchange (exchange f set clear) set clear = exchange f set clear := by
  ext i inside
  by_cases at' : i = clear
  · subst at'
    simp [exchange, apart.symm, low]
  · by_cases at'' : i = set <;> simp [exchange, at', at'']

omit apart low in
theorem exchange_set : exchange f set clear &&& BitVec.twoPow 32 set = BitVec.twoPow 32 set := by
  ext i inside
  by_cases at' : i = set <;> simp [exchange, at']

end Flags

/-- The flags at the end. -/
theorem fixFlags_eq (pTime : RtTime) : (fixFlags pTime).fFlags ||| RTTIME_FLAGS_TYPE_UTC =
      if IsLeap pTime.i32Year then exchange pTime.fFlags 6 7 else exchange pTime.fFlags 7 6 := by
  unfold fixFlags
  rw [RtTime.fLeapYear_eq]
  by_cases leap : IsLeap pTime.i32Year
  · rw [decide_eq_true leap, if_pos rfl, if_pos leap]
    rfl
  · rw [decide_eq_false leap, if_neg Bool.false_ne_true, if_neg leap]
    rfl

/-! ### Days of the week -/

theorem addYears_eq {i32Year : Int} (since : 1970 ≤ i32Year) (offDays : Int) :
    addYears i32Year offDays = offDays + yearStart i32Year := by
  induction i32Year, offDays using addYears.induct with
  | case1 i32Year offDays more ih =>
    have next := yearStart_succ (i32Year - 1)
    simp only [dite_eq_ite, leapDays_eq_int] at ih
    rw [addYears, if_pos more, leapDays_eq_int, ih more]
    rw [Int.sub_add_cancel] at next
    omega
  | case2 i32Year offDays stop =>
    obtain rfl : i32Year = 1970 := by omega
    rw [addYears, if_neg stop, yearStart_epoch, Int.add_zero]

theorem subYears_eq {i32Year : Int} (before : i32Year < 1970) (offDays : Int) :
    subYears i32Year offDays = offDays + yearStart (i32Year + 1) := by
  induction i32Year, offDays using subYears.induct with
  | case1 i32Year offDays more ih =>
    have next := yearStart_succ (i32Year + 1)
    simp only [dite_eq_ite, leapDays_eq_int] at ih
    rw [subYears, if_pos more, leapDays_eq_int, ih more]
    omega
  | case2 i32Year offDays stop =>
    obtain rfl : i32Year = 1969 := by omega
    rw [subYears, if_neg stop]
    exact (Int.add_zero _).symm

theorem fixWeekDay_eq {pTime : RtTime} {date : Date} (fields : pTime.HasDate date) :
    fixWeekDay pTime = some { pTime with u8WeekDay := date.weekDay } := by
  have length : g_aoffYear.length = 600 := by rw [g_aoffYear_eq]; simp
  have number : date.dayNumber = yearStart pTime.i32Year + pTime.u16YearDay - 1 := by
    rw [fields.year, fields.yearDay, Date.dayNumber]
  have seven (day : Int) (same : day = date.dayNumber) : weekDay day = date.weekDay := by
    rw [same, weekDay, weekDay_eq, Date.weekDay]
  unfold fixWeekDay
  rw [length]
  by_cases inTable : pTime.i32Year ≥ OFF_YEAR_IDX_0_YEAR ∧
      pTime.i32Year < OFF_YEAR_IDX_0_YEAR + (600 : Nat)
  · rw [if_pos inTable]
    unfold OFF_YEAR_IDX_0_YEAR at inTable ⊢
    rw [g_aoffYear_get (by omega), map_some, seven _ (by
      rw [show (1670 : Int) + (pTime.i32Year - 1670).toNat = pTime.i32Year by omega]
      omega)]
  · rw [if_neg inTable]
    by_cases since : pTime.i32Year ≥ 1970
    · rw [if_pos since, addYears_eq since]
      dsimp only
      rw [show (pTime.u16YearDay : Int) - 1 + yearStart pTime.i32Year = date.dayNumber by omega,
        Date.weekDay, uint,
        show (date.dayNumber + 3) % 7 % 2 ^ 8 = (date.dayNumber + 3) % 7 by omega]
    · have next := yearStart_succ pTime.i32Year
      rw [if_neg since, subYears_eq (by omega), RtTime.fLeapYear_eq]
      dsimp only
      rw [seven]
      rw [next, number, daysInYear]
      by_cases leap : IsLeap pTime.i32Year
      · simp only [leap, decide_true, if_true]
        omega
      · simp only [leap, decide_false, if_false]
        simp only [Bool.false_eq_true, if_false]
        omega

theorem fixWeekDay_fields {pTime pTime' : RtTime} (fixed : fixWeekDay pTime = some pTime') :
    pTime' = { pTime with u8WeekDay := pTime'.u8WeekDay } := by
  unfold fixWeekDay at fixed
  split at fixed
  · obtain ⟨offYear, -, rfl⟩ := map_eq_some_iff.mp fixed
    rfl
  · split at fixed
    · obtain rfl := some.inj fixed
      rfl
    · obtain rfl := some.inj fixed
      rfl

/-! ### The end of the function -/

/-- What is left where the fields are a date. -/
def RtTime.settled (pTime : RtTime) (date : Date) : RtTime :=
  { pTime with
    u8WeekDay := date.weekDay
    fFlags := if IsLeap pTime.i32Year then exchange pTime.fFlags 6 7
      else exchange pTime.fFlags 7 6 }

theorem fixFlags_fields (pTime : RtTime) :
    fixFlags pTime = { pTime with fFlags := (fixFlags pTime).fFlags } := by
  unfold fixFlags
  split <;> rfl

section Settle

variable {pTime : RtTime} {date : Date} (fields : pTime.HasDate date)

include fields

theorem settle_eq : (fixWeekDay (fixFlags pTime)).map (fun pTime =>
    { pTime with fFlags := pTime.fFlags ||| RTTIME_FLAGS_TYPE_UTC }) =
      some (pTime.settled date) := by
  have kept : (fixFlags pTime).HasDate date := by
    rw [fixFlags_fields]
    exact ⟨fields.year, fields.month, fields.monthDay, fields.yearDay⟩
  rw [fixWeekDay_eq kept, map_some]
  simp only [fixFlags_eq]
  rw [fixFlags_fields]
  rfl

omit fields in
theorem settled_settled : (pTime.settled date).settled date = pTime.settled date := by
  unfold RtTime.settled
  by_cases leap : IsLeap pTime.i32Year
  · simp only [leap, if_true, exchange_exchange pTime.fFlags (show 6 ≠ 7 by decide) (by decide)]
  · simp only [leap, if_false, exchange_exchange pTime.fFlags (show 7 ≠ 6 by decide) (by decide)]

theorem settled_hasDate : (pTime.settled date).HasDate date :=
  ⟨fields.year, fields.month, fields.monthDay, fields.yearDay⟩

theorem settled_isDate : IsDate (pTime.settled date) date := by
  refine ⟨fields.year, fields.month, rfl, fields.yearDay, fields.monthDay, ?_, ?_⟩
  · unfold RtTime.settled RTTIME_FLAGS_LEAP_YEAR
    rw [← fields.year]
    by_cases leap : IsLeap pTime.i32Year
    · simp only [leap, if_true, exchange_set]
      decide
    · simp [leap, exchange_clear pTime.fFlags (show 7 ≠ 6 by decide) (by decide)]
  · unfold RtTime.settled RTTIME_FLAGS_COMMON_YEAR
    rw [← fields.year]
    by_cases leap : IsLeap pTime.i32Year
    · simp [leap, exchange_clear pTime.fFlags (show 6 ≠ 7 by decide) (by decide)]
    · simp only [leap, if_false, exchange_set]
      decide

end Settle

/-! ### Normalizing -/

/-- The fields are values of their types. -/
structure RtTime.Typed (pTime : RtTime) : Prop where
  i32Year : -2 ^ 31 ≤ pTime.i32Year ∧ pTime.i32Year < 2 ^ 31
  u8Month : pTime.u8Month < 2 ^ 8
  u8WeekDay : pTime.u8WeekDay < 2 ^ 8
  u16YearDay : pTime.u16YearDay < 2 ^ 16
  u8MonthDay : pTime.u8MonthDay < 2 ^ 8
  u8Hour : pTime.u8Hour < 2 ^ 8
  u8Minute : pTime.u8Minute < 2 ^ 8
  u8Second : pTime.u8Second < 2 ^ 8
  u32Nanosecond : pTime.u32Nanosecond < 2 ^ 32

/-- What `RTTimeNormalize` checks. -/
structure RtTime.Accepted (pTime : RtTime) : Prop where
  flags : pTime.fFlags &&& ~~~RTTIME_FLAGS_MASK = 0
  notLocal : pTime.fFlags &&& RTTIME_FLAGS_TYPE_MASK ≠ RTTIME_FLAGS_TYPE_LOCAL
  offUTC : pTime.offUTC = 0
  given : pTime.u16YearDay ≠ 0 ∨ pTime.u8Month ≠ 0 ∧ pTime.u8MonthDay ≠ 0

/-- The fields end inside their ranges, as one date and the instant that was meant, and a second
call leaves them as they are. -/
def RtTime.Normalizes (pTime : RtTime) : Prop :=
  ∃ pTime' date, RTTimeNormalize pTime = some pTime' ∧ IsDate pTime' date ∧
    IsTimeOfDay pTime' ∧
    date.dayNumber * nanosecondsPerDay + pTime'.i64Nanos =
      pTime.dayMeant * nanosecondsPerDay + pTime.i64Nanos ∧
    (RTTimeNormalize pTime').getD pTime' = pTime'

theorem normalize_eq {pTime day : RtTime} (accepted : pTime.Accepted)
    (fixed : fixDate pTime = some day) :
    RTTimeNormalize pTime = ((fixTime day).bind fun pTime => fixWeekDay (fixFlags pTime)).map
      fun pTime => { pTime with fFlags := pTime.fFlags ||| RTTIME_FLAGS_TYPE_UTC } := by
  rw [RTTimeNormalize, if_pos ⟨accepted.flags, accepted.notLocal, accepted.offUTC⟩,
    rtTimeNormalizeInternal, fixed]
  rfl

theorem SameTime.i64Nanos {pTime pTime' : RtTime} (same : pTime.SameTime pTime') :
    pTime'.i64Nanos = pTime.i64Nanos := by
  rw [RtTime.i64Nanos, same.hour, same.minute, same.second, same.nanosecond]
  rfl

/-- A second call. -/
theorem normalize_settled {pTime : RtTime} {date : Date} (fields : pTime.HasDate date)
    (time : IsTimeOfDay pTime) :
    (RTTimeNormalize (pTime.settled date)).getD (pTime.settled date) = pTime.settled date := by
  have fields' := settled_hasDate fields
  by_cases checks : (pTime.settled date).fFlags &&& ~~~RTTIME_FLAGS_MASK = 0 ∧
      (pTime.settled date).fFlags &&& RTTIME_FLAGS_TYPE_MASK ≠ RTTIME_FLAGS_TYPE_LOCAL ∧
      (pTime.settled date).offUTC = 0
  · have given : (pTime.settled date).u16YearDay ≠ 0 := by
      rw [fields'.yearDay]
      exact Nat.ne_of_gt date.dayOfYear_pos
    have fixed : fixDate (pTime.settled date) = some (pTime.settled date) := by
      rw [fixDate, if_neg given, if_pos (fMatch_iff.mpr ⟨date, fields'⟩)]
    have time' : IsTimeOfDay (pTime.settled date) :=
      ⟨time.hour, time.minute, time.second, time.nanosecond⟩
    rw [normalize_eq ⟨checks.1, checks.2.1, checks.2.2, .inl given⟩ fixed,
      fixTime_of_isTimeOfDay time', bind_some, settle_eq fields', settled_settled,
      getD_some]
  · rw [RTTimeNormalize, if_neg checks, getD_none]

/-- A date goes on to the date of its instant. -/
theorem normalize_of_hasDate {pTime day : RtTime} {date : Date} (accepted : pTime.Accepted)
    (fixed : fixDate pTime = some day) (fields : day.HasDate date) :
    ∃ pTime' date', RTTimeNormalize pTime = some pTime' ∧ pTime'.HasDate date' ∧
      IsDate pTime' date' ∧ IsTimeOfDay pTime' ∧
      date'.dayNumber * nanosecondsPerDay + pTime'.i64Nanos =
        date.dayNumber * nanosecondsPerDay + day.i64Nanos ∧
      (RTTimeNormalize pTime').getD pTime' = pTime' := by
  obtain ⟨last, date', hours, fields', number⟩ := carryHours_hasDate day.uHour fields
  have fields'' : (day.atTime last).HasDate date' :=
    ⟨fields'.year, fields'.month, fields'.monthDay, fields'.yearDay⟩
  have time : IsTimeOfDay (day.atTime last) := atTime_isTimeOfDay last
  have nanos : (day.uHour / 24 : Nat) * nanosecondsPerDay +
      ((day.atTime last).settled date').i64Nanos = day.i64Nanos := atTime_i64Nanos last
  refine ⟨(day.atTime last).settled date', date', ?_, settled_hasDate fields'',
    settled_isDate fields'', ⟨time.hour, time.minute, time.second, time.nanosecond⟩, ?_,
    normalize_settled fields'' time⟩
  · rw [normalize_eq accepted fixed, fixTime_eq hours, bind_some, settle_eq fields'']
  · rw [number, Int.add_mul, Int.add_assoc, nanos]

/-- A day behind its month is no date. -/
theorem not_isDate_of_past {pTime day : RtTime} (typed : pTime.Typed) (accepted : pTime.Accepted)
    (fixed : fixDate pTime = some day) (same : pTime.SameTime day) (past : day.Past 0)
    {pTime' : RtTime} (normalized : RTTimeNormalize pTime = some pTime') (date : Date) :
    ¬ IsDate pTime' date := by
  have few : day.uHour / 24 < 200 := by
    have hour := typed.u8Hour
    have minute := typed.u8Minute
    have second := typed.u8Second
    have nanosecond := typed.u32Nanosecond
    rw [← same.hour] at hour
    rw [← same.minute] at minute
    rw [← same.second] at second
    rw [← same.nanosecond] at nanosecond
    unfold RtTime.uHour RtTime.uMinute RtTime.uSecond
    omega
  obtain ⟨last, hours, past'⟩ := carryHours_past day.uHour past (by omega)
  rw [normalize_eq accepted fixed, fixTime_eq hours, bind_some] at normalized
  obtain ⟨ended, weekDay, rfl⟩ := map_eq_some_iff.mp normalized
  have kept := fixWeekDay_fields weekDay
  rw [fixFlags_fields] at kept
  have year := congrArg RtTime.i32Year kept
  have month := congrArg RtTime.u8Month kept
  have monthDay := congrArg RtTime.u8MonthDay kept
  change ended.i32Year = last.i32Year at year
  change ended.u8Month = last.u8Month at month
  change ended.u8MonthDay = last.u8MonthDay at monthDay
  intro fields
  have inside := date.inMonth.2
  have beyond := past'.past
  rw [RtTime.cDaysInMonth, ← month, ← monthDay, show ended.u8Month = _ from fields.month,
    show ended.u8MonthDay = _ from fields.monthDay] at beyond
  have length : daysInMonth (IsLeap last.i32Year) date.month =
      daysInMonth (IsLeap date.year) date.month := by
    simp only [← year, show ended.i32Year = _ from fields.year]
  omega

section Exact

variable {pTime : RtTime} (typed : pTime.Typed) (accepted : pTime.Accepted)

include accepted

theorem fixDate_spec : ∃ day, fixDate pTime = some day ∧ pTime.SameTime day ∧
    ((pTime.CarriesWell ∧ ∃ date, day.HasDate date ∧ date.dayNumber = pTime.dayMeant) ∨
      (¬ pTime.CarriesWell ∧ (day.Past 0 ∨
        ∃ date, day.HasDate date ∧ date.dayNumber ≠ pTime.dayMeant))) := by
  by_cases none : pTime.u16YearDay = 0
  · obtain ⟨month, day⟩ := accepted.given.resolve_left (not_not.mpr none)
    exact fixDate_month none month day
  · exact fixDate_yearDay none

theorem normalizes_of_carriesWell (well : pTime.CarriesWell) : pTime.Normalizes := by
  obtain ⟨day, fixed, same, ⟨-, date, fields, number⟩ | ⟨not, -⟩⟩ := fixDate_spec accepted
  · obtain ⟨pTime', date', normalized, -, isDate, time, instant, again⟩ :=
      normalize_of_hasDate accepted fixed fields
    refine ⟨pTime', date', normalized, isDate, time, instant.trans ?_, again⟩
    rw [number, SameTime.i64Nanos same]
  · exact absurd well not

include typed

theorem carriesWell_of_normalizes (normalizes : pTime.Normalizes) : pTime.CarriesWell := by
  obtain ⟨pTime', date, normalized, isDate, -, instant, -⟩ := normalizes
  obtain ⟨day, fixed, same, ⟨well, -⟩ | ⟨-, past | ⟨date', fields, wrong⟩⟩⟩ := fixDate_spec accepted
  · exact well
  · exact absurd isDate (not_isDate_of_past typed accepted fixed same past normalized date)
  · obtain ⟨pTime'', date'', normalized', fields', -, -, instant', -⟩ :=
      normalize_of_hasDate accepted fixed fields
    obtain rfl := some.inj (normalized.symm.trans normalized')
    obtain rfl : date = date'' := Date.ext (isDate.year.symm.trans fields'.year)
      (isDate.month.symm.trans fields'.month) (isDate.monthDay.symm.trans fields'.monthDay)
    have nanos := SameTime.i64Nanos same
    unfold nanosecondsPerDay at instant instant'
    exact absurd (show date'.dayNumber = pTime.dayMeant by omega) wrong

/-- Normalizing is right exactly where neither slip is met. -/
theorem normalizes_iff : pTime.Normalizes ↔ pTime.CarriesWell :=
  ⟨carriesWell_of_normalizes typed accepted, normalizes_of_carriesWell accepted⟩

end Exact

/-- A day, an hour and a second too many at the end of 2010. -/
def yearEnd : RtTime :=
  ⟨2010, 12, 0, 0, 32, 24, 59, 60, 0, RTTIME_FLAGS_TYPE_UTC, 0⟩

theorem normalizes_iff_yearEnd : yearEnd.Normalizes ↔ yearEnd.CarriesWell :=
  normalizes_iff ⟨by decide, by decide, by decide, by decide, by decide, by decide, by decide,
    by decide, by decide⟩ ⟨by decide, by decide, by decide, by decide⟩

/-- The 29th of February 2011. -/
def leapDay : RtTime :=
  ⟨2011, 2, 0, 0, 29, 0, 0, 0, 0, RTTIME_FLAGS_TYPE_UTC, 0⟩

/-- The 32nd day of 2011. -/
def february : RtTime :=
  ⟨2011, 0, 0, 32, 0, 0, 0, 0, 0, RTTIME_FLAGS_TYPE_UTC, 0⟩

/-- The one stays the 29th of February, the other becomes the 32nd of January. -/
theorem not_normalizes_leapDay : ¬ leapDay.Normalizes ∧ ¬ february.Normalizes := by
  constructor
  · intro normalizes
    have well := carriesWell_of_normalizes ⟨by decide, by decide, by decide, by decide, by decide,
      by decide, by decide, by decide, by decide⟩ ⟨by decide, by decide, by decide, by decide⟩
      normalizes
    rw [RtTime.CarriesWell, if_pos (by decide)] at well
    exact well ⟨2011, by decide, by decide, by decide⟩
  · intro normalizes
    have well := carriesWell_of_normalizes ⟨by decide, by decide, by decide, by decide, by decide,
      by decide, by decide, by decide, by decide⟩ ⟨by decide, by decide, by decide, by decide⟩
      normalizes
    rw [RtTime.CarriesWell, if_neg (by decide)] at well
    obtain ⟨date, fields⟩ | january := well
    · exact absurd (fields.month.symm ▸ date.inYear.1 : 1 ≤ february.u8Month) (by decide)
    · exact absurd (january ⟨2011, 2, 1, by decide, by decide⟩ rfl rfl) (by decide)

end VBox.Runtime.Time
