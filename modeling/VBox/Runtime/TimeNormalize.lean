import VBox.Runtime.TimeRoundTrip

/-!
`RTTimeNormalize`. The year is not held to 32 bits here: where it would leave them the source
has no meaning.
-/

namespace VBox.Runtime.Time

/-! ### Dates -/

/-- The next year; what the flags said of the last one goes. -/
def RtTime.nextYear (pTime : RtTime) : RtTime :=
  { pTime with
    i32Year := pTime.i32Year + 1
    fFlags := pTime.fFlags &&& ~~~(RTTIME_FLAGS_COMMON_YEAR ||| RTTIME_FLAGS_LEAP_YEAR) }

/-- `fLeapYear`, which is set again with every change of the year. -/
def RtTime.fLeapYear (pTime : RtTime) : Bool := rtTimeIsLeapYear pTime.i32Year

def RtTime.paiDayOfYear (pTime : RtTime) : List Int := aiDayOfYear pTime.fLeapYear

def RtTime.cDaysInYear (pTime : RtTime) : Nat := if pTime.fLeapYear then 366 else 365

/-- `while (pTime->u8Month > 12)` -/
def carryMonths (pTime : RtTime) : RtTime :=
  if pTime.u8Month > 12 then
    carryMonths { pTime.nextYear with u8Month := pTime.u8Month - 12 }
  else pTime
termination_by pTime.u8Month

def RtTime.nextMonth (pTime : RtTime) (cDaysInMonth : Nat) : RtTime :=
  if pTime.u8Month ≠ 12 then
    { pTime with u8MonthDay := pTime.u8MonthDay - cDaysInMonth, u8Month := pTime.u8Month + 1 }
  else
    { pTime.nextYear with u8MonthDay := pTime.u8MonthDay - cDaysInMonth, u8Month := 1 }

theorem RtTime.nextMonth_u8MonthDay (pTime : RtTime) (cDaysInMonth : Nat) :
    (pTime.nextMonth cDaysInMonth).u8MonthDay = pTime.u8MonthDay - cDaysInMonth := by
  unfold nextMonth
  split <;> rfl

theorem g_acDaysInMonthsLeap_pos : ∀ cDaysInMonth ∈ g_acDaysInMonthsLeap, 0 < cDaysInMonth := by
  decide

/-- `for (;;)` over the days of the month. Of a common year, too, it reads the leap year's. -/
def carryDays (pTime : RtTime) : Option RtTime :=
  match _found : g_acDaysInMonthsLeap[pTime.u8Month - 1]? with
  | none => none
  | some cDaysInMonth =>
    if pTime.u8MonthDay ≤ cDaysInMonth then some pTime
    else carryDays (pTime.nextMonth cDaysInMonth)
termination_by pTime.u8MonthDay
decreasing_by
  have pos := g_acDaysInMonthsLeap_pos _ (List.mem_of_getElem? _found)
  rw [RtTime.nextMonth_u8MonthDay]
  omega

/-- `while (pTime->u16YearDay > (fLeapYear ? 366 : 365))` -/
def carryYears (pTime : RtTime) : RtTime :=
  if pTime.u16YearDay > pTime.cDaysInYear then
    carryYears { pTime.nextYear with u16YearDay := pTime.u16YearDay - pTime.cDaysInYear }
  else pTime
termination_by pTime.u16YearDay
decreasing_by
  rename_i more
  unfold RtTime.cDaysInYear at more ⊢
  split at more <;> split <;> simp_all <;> omega

/-- `while (pTime->u16YearDay > paiDayOfYear[pTime->u8Month])` -/
def searchMonth (paiDayOfYear : List Int) (u16YearDay : Nat) (u8Month : Nat) : Option Nat :=
  if inside : u8Month < paiDayOfYear.length then
    if u16YearDay > paiDayOfYear[u8Month] then
      searchMonth paiDayOfYear u16YearDay (u8Month + 1)
    else some u8Month
  else none
termination_by paiDayOfYear.length - u8Month

/-- The year-day the month and the day of the month come to. -/
def RtTime.yearDay (pTime : RtTime) : Option Nat :=
  pTime.paiDayOfYear[pTime.u8Month - 1]?.map fun iDay => uint 16 (pTime.u8MonthDay - 1 + iDay)

/-- `!fRecalc`: what month and day say is valid, and what the year-day says. -/
def RtTime.fMatch (pTime : RtTime) : Bool :=
  pTime.u8Month != 0 && pTime.u8MonthDay != 0 && pTime.u8Month ≤ 12 &&
    (if pTime.fLeapYear then g_acDaysInMonthsLeap else g_acDaysInMonths)[pTime.u8Month - 1]?.any
      (pTime.u8MonthDay ≤ ·) &&
    pTime.yearDay == some pTime.u16YearDay

/-- The year-day, and month and day of the month. -/
def fixDate (pTime : RtTime) : Option RtTime :=
  if pTime.u16YearDay = 0 then
    if pTime.u8Month ≠ 0 ∧ pTime.u8MonthDay ≠ 0 then do
      let pTime ← carryDays (carryMonths pTime)
      let u16YearDay ← pTime.yearDay
      some { pTime with u16YearDay := u16YearDay }
    else none
  else if pTime.fMatch then some pTime
  else do
    let pTime := carryYears pTime
    let u8Month ← searchMonth pTime.paiDayOfYear pTime.u16YearDay 1
    let iDay ← pTime.paiDayOfYear[u8Month - 1]?
    some { pTime with
      u8Month := u8Month
      u8MonthDay := uint 8 (pTime.u16YearDay - iDay + 1) }

/-! ### Times of the day -/

/-- `while (low >= unit)`: the loops that carry nanoseconds, seconds and minutes. -/
def carry (unit : Nat) (pos : 0 < unit) (low high : Nat) : Nat × Nat :=
  if low ≥ unit then carry unit pos (low - unit) (high + 1) else (low, high)
termination_by low

def RtTime.incDay (pTime : RtTime) : Option RtTime :=
  pTime.paiDayOfYear[pTime.u8Month]?.map fun iDay =>
    if (pTime.u16YearDay + 1 : Int) ≠ iDay then
      { pTime with
        u16YearDay := uint 16 (pTime.u16YearDay + 1)
        u8MonthDay := uint 8 (pTime.u8MonthDay + 1) }
    else if pTime.u8Month ≠ 12 then
      { pTime with
        u16YearDay := uint 16 (pTime.u16YearDay + 1)
        u8Month := pTime.u8Month + 1
        u8MonthDay := 1 }
    else { pTime.nextYear with u16YearDay := 1, u8Month := 1, u8MonthDay := 1 }

/-- `while (uHour >= 24)` -/
def carryHours (uHour : Nat) (pTime : RtTime) : Option (Nat × RtTime) :=
  if uHour ≥ 24 then pTime.incDay.bind (carryHours (uHour - 24)) else some (uHour, pTime)
termination_by uHour

def fixTime (pTime : RtTime) : Option RtTime :=
  let (u32Nanosecond, uSecond) :=
    carry 1000000000 (by decide) pTime.u32Nanosecond pTime.u8Second
  let (uSecond, uMinute) := carry 60 (by decide) uSecond pTime.u8Minute
  let (uMinute, uHour) := carry 60 (by decide) uMinute pTime.u8Hour
  (carryHours uHour pTime).map fun (uHour, pTime) =>
    { pTime with
      u32Nanosecond := u32Nanosecond
      u8Second := uSecond
      u8Minute := uMinute
      u8Hour := uHour }

/-! ### The flags and the day of the week -/

def fixFlags (pTime : RtTime) : RtTime :=
  if pTime.fLeapYear then
    { pTime with
      fFlags := pTime.fFlags &&& ~~~RTTIME_FLAGS_COMMON_YEAR ||| RTTIME_FLAGS_LEAP_YEAR }
  else
    { pTime with
      fFlags := pTime.fFlags &&& ~~~RTTIME_FLAGS_LEAP_YEAR ||| RTTIME_FLAGS_COMMON_YEAR }

/-- `while (--i32Year >= 1970)` -/
def addYears (i32Year offDays : Int) : Int :=
  if i32Year - 1 ≥ 1970 then
    addYears (i32Year - 1) (offDays + if rtTimeIsLeapYear (i32Year - 1) then 366 else 365)
  else offDays
termination_by (i32Year - 1970).toNat

/-- `while (++i32Year < 1970)` -/
def subYears (i32Year offDays : Int) : Int :=
  if i32Year + 1 < 1970 then
    subYears (i32Year + 1) (offDays - if rtTimeIsLeapYear (i32Year + 1) then 366 else 365)
  else offDays
termination_by (1970 - i32Year).toNat

def weekDay (offDays : Int) : Nat := uint 8 ((offDays.tmod 7 + 3 + 7).tmod 7)

def fixWeekDay (pTime : RtTime) : Option RtTime :=
  if pTime.i32Year ≥ OFF_YEAR_IDX_0_YEAR ∧
      pTime.i32Year < OFF_YEAR_IDX_0_YEAR + g_aoffYear.length then
    g_aoffYear[(pTime.i32Year - OFF_YEAR_IDX_0_YEAR).toNat]?.map fun offYear =>
      { pTime with u8WeekDay := weekDay (offYear + pTime.u16YearDay - 1) }
  else if pTime.i32Year ≥ 1970 then
    let offDays := addYears pTime.i32Year (pTime.u16YearDay - 1)
    some { pTime with u8WeekDay := uint 8 ((offDays + 3) % 7) }
  else
    let offDays := subYears pTime.i32Year
      ((if pTime.fLeapYear then -366 - 1 else -365 - 1) + pTime.u16YearDay)
    some { pTime with u8WeekDay := weekDay offDays }

def rtTimeNormalizeInternal (pTime : RtTime) : Option RtTime := do
  let pTime ← fixDate pTime
  let pTime ← fixTime pTime
  fixWeekDay (fixFlags pTime)

def RTTimeNormalize (pTime : RtTime) : Option RtTime :=
  if pTime.fFlags &&& ~~~RTTIME_FLAGS_MASK = 0 ∧
      pTime.fFlags &&& RTTIME_FLAGS_TYPE_MASK ≠ RTTIME_FLAGS_TYPE_LOCAL ∧ pTime.offUTC = 0 then
    (rtTimeNormalizeInternal pTime).map fun pTime =>
      { pTime with fFlags := pTime.fFlags ||| RTTIME_FLAGS_TYPE_UTC }
  else none

end VBox.Runtime.Time
