import VBox.Lib.Gregorian

/-!
Exploded times and nanosecond counts: `RTTimeExplode`, `RTTimeImplode`.
-/

namespace VBox.Runtime.Time

/-! ### Integers of the code's widths -/

def int32 (x : Int) : Int := x.bmod (2 ^ 32)

/-- What an unsigned field or variable of that many bits keeps of a value. -/
def uint (bits : Nat) (x : Int) : Nat := (x % 2 ^ bits).toNat

/-! ### The structures -/

@[ext] structure RtTimeSpec where
  i64NanosecondsRelativeToUnixEpoch : Int
  range : -2 ^ 63 ≤ i64NanosecondsRelativeToUnixEpoch ∧
    i64NanosecondsRelativeToUnixEpoch < 2 ^ 63

/-- An `int64_t` takes what fits of a value. -/
def RtTimeSpec.wrap (x : Int) : RtTimeSpec where
  i64NanosecondsRelativeToUnixEpoch := x.bmod (2 ^ 64)
  range := by
    have low : -((2 ^ 64 : Nat) / 2 : Int) ≤ x.bmod (2 ^ 64) := Int.le_bmod (by decide)
    have high : x.bmod (2 ^ 64) < ((2 ^ 64 : Nat) + 1 : Int) / 2 := Int.bmod_lt (by decide)
    exact ⟨by simpa using low, by simpa using high⟩

structure RtTime where
  i32Year : Int
  u8Month : Nat
  u8WeekDay : Nat
  u16YearDay : Nat
  u8MonthDay : Nat
  u8Hour : Nat
  u8Minute : Nat
  u8Second : Nat
  u32Nanosecond : Nat
  fFlags : BitVec 32
  offUTC : Int
  deriving DecidableEq

def RTTIME_FLAGS_TYPE_MASK : BitVec 32 := 3#32
def RTTIME_FLAGS_TYPE_UTC : BitVec 32 := 2#32
def RTTIME_FLAGS_TYPE_LOCAL : BitVec 32 := 3#32
def RTTIME_FLAGS_LEAP_YEAR : BitVec 32 := BitVec.twoPow 32 6
def RTTIME_FLAGS_COMMON_YEAR : BitVec 32 := BitVec.twoPow 32 7
def RTTIME_FLAGS_MASK : BitVec 32 := 0xff#32

/-! ### Limits and tables -/

def RTTIME_MAX_YEAR : Int := 292 + 1970
def RTTIME_MIN_YEAR : Int := -293 + 1970
def RTTIME_MAX_DAY : Int := 365 * 292 + 71 + 101 - 1
def RTTIME_MIN_DAY : Int := 365 * -293 - 70 + 264 - 1
def RTTIME_MAX_DAY_NANO : Int := 1000000000 * (23 * 3600 + 47 * 60 + 16) + 854775807
def RTTIME_MIN_DAY_NANO : Int := 1000000000 * (0 * 3600 + 12 * 60 + 43) + 145224192

def g_acDaysInMonths : List Nat := [31, 28, 31, 30, 31, 30, 31, 31, 30, 31, 30, 31]

def g_acDaysInMonthsLeap : List Nat := [31, 29, 31, 30, 31, 30, 31, 31, 30, 31, 30, 31]

def g_aiDayOfYear : List Int := [
  1,
  1 + 31,
  1 + 31 + 28,
  1 + 31 + 28 + 31,
  1 + 31 + 28 + 31 + 30,
  1 + 31 + 28 + 31 + 30 + 31,
  1 + 31 + 28 + 31 + 30 + 31 + 30,
  1 + 31 + 28 + 31 + 30 + 31 + 30 + 31,
  1 + 31 + 28 + 31 + 30 + 31 + 30 + 31 + 31,
  1 + 31 + 28 + 31 + 30 + 31 + 30 + 31 + 31 + 30,
  1 + 31 + 28 + 31 + 30 + 31 + 30 + 31 + 31 + 30 + 31,
  1 + 31 + 28 + 31 + 30 + 31 + 30 + 31 + 31 + 30 + 31 + 30,
  1 + 31 + 28 + 31 + 30 + 31 + 30 + 31 + 31 + 30 + 31 + 30 + 31]

def g_aiDayOfYearLeap : List Int := [
  1,
  1 + 31,
  1 + 31 + 29,
  1 + 31 + 29 + 31,
  1 + 31 + 29 + 31 + 30,
  1 + 31 + 29 + 31 + 30 + 31,
  1 + 31 + 29 + 31 + 30 + 31 + 30,
  1 + 31 + 29 + 31 + 30 + 31 + 30 + 31,
  1 + 31 + 29 + 31 + 30 + 31 + 30 + 31 + 31,
  1 + 31 + 29 + 31 + 30 + 31 + 30 + 31 + 31 + 30,
  1 + 31 + 29 + 31 + 30 + 31 + 30 + 31 + 31 + 30 + 31,
  1 + 31 + 29 + 31 + 30 + 31 + 30 + 31 + 31 + 30 + 31 + 30,
  1 + 31 + 29 + 31 + 30 + 31 + 30 + 31 + 31 + 30 + 31 + 30 + 31]

/-- The day of the year each month begins with. -/
def aiDayOfYear (fLeapYear : Bool) : List Int :=
  if fLeapYear then g_aiDayOfYearLeap else g_aiDayOfYear

def OFF_YEAR_IDX_EPOCH : Int := 300
def OFF_YEAR_IDX_0_YEAR : Int := 1670

/-- The leap days from the years 1670 to 1969 to 1970, as the entries of the table have them. -/
def leapDaysBefore1970 : List Nat := [
   72, 72, 72, 71, 71, 71, 71, 70, 70, 70, 70, 69, 69, 69, 69, 68, 68, 68, 68, 67,
   67, 67, 67, 66, 66, 66, 66, 65, 65, 65, 65, 65, 65, 65, 65, 64, 64, 64, 64, 63,
   63, 63, 63, 62, 62, 62, 62, 61, 61, 61, 61, 60, 60, 60, 60, 59, 59, 59, 59, 58,
   58, 58, 58, 57, 57, 57, 57, 56, 56, 56, 56, 55, 55, 55, 55, 54, 54, 54, 54, 53,
   53, 53, 53, 52, 52, 52, 52, 51, 51, 51, 51, 50, 50, 50, 50, 49, 49, 49, 49, 48,
   48, 48, 48, 47, 47, 47, 47, 46, 46, 46, 46, 45, 45, 45, 45, 44, 44, 44, 44, 43,
   43, 43, 43, 42, 42, 42, 42, 41, 41, 41, 41, 41, 41, 41, 41, 40, 40, 40, 40, 39,
   39, 39, 39, 38, 38, 38, 38, 37, 37, 37, 37, 36, 36, 36, 36, 35, 35, 35, 35, 34,
   34, 34, 34, 33, 33, 33, 33, 32, 32, 32, 32, 31, 31, 31, 31, 30, 30, 30, 30, 29,
   29, 29, 29, 28, 28, 28, 28, 27, 27, 27, 27, 26, 26, 26, 26, 25, 25, 25, 25, 24,
   24, 24, 24, 23, 23, 23, 23, 22, 22, 22, 22, 21, 21, 21, 21, 20, 20, 20, 20, 19,
   19, 19, 19, 18, 18, 18, 18, 17, 17, 17, 17, 17, 17, 17, 17, 16, 16, 16, 16, 15,
   15, 15, 15, 14, 14, 14, 14, 13, 13, 13, 13, 12, 12, 12, 12, 11, 11, 11, 11, 10,
   10, 10, 10, 9, 9, 9, 9, 8, 8, 8, 8, 7, 7, 7, 7, 6, 6, 6, 6, 5,
   5, 5, 5, 4, 4, 4, 4, 3, 3, 3, 3, 2, 2, 2, 2, 1, 1, 1, 1, 0]

/-- The leap days from 1970 to the years 1970 to 2269. -/
def leapDaysFrom1970 : List Nat := [
   0, 0, 0, 1, 1, 1, 1, 2, 2, 2, 2, 3, 3, 3, 3, 4, 4, 4, 4, 5,
   5, 5, 5, 6, 6, 6, 6, 7, 7, 7, 7, 8, 8, 8, 8, 9, 9, 9, 9, 10,
   10, 10, 10, 11, 11, 11, 11, 12, 12, 12, 12, 13, 13, 13, 13, 14, 14, 14, 14, 15,
   15, 15, 15, 16, 16, 16, 16, 17, 17, 17, 17, 18, 18, 18, 18, 19, 19, 19, 19, 20,
   20, 20, 20, 21, 21, 21, 21, 22, 22, 22, 22, 23, 23, 23, 23, 24, 24, 24, 24, 25,
   25, 25, 25, 26, 26, 26, 26, 27, 27, 27, 27, 28, 28, 28, 28, 29, 29, 29, 29, 30,
   30, 30, 30, 31, 31, 31, 31, 32, 32, 32, 32, 32, 32, 32, 32, 33, 33, 33, 33, 34,
   34, 34, 34, 35, 35, 35, 35, 36, 36, 36, 36, 37, 37, 37, 37, 38, 38, 38, 38, 39,
   39, 39, 39, 40, 40, 40, 40, 41, 41, 41, 41, 42, 42, 42, 42, 43, 43, 43, 43, 44,
   44, 44, 44, 45, 45, 45, 45, 46, 46, 46, 46, 47, 47, 47, 47, 48, 48, 48, 48, 49,
   49, 49, 49, 50, 50, 50, 50, 51, 51, 51, 51, 52, 52, 52, 52, 53, 53, 53, 53, 54,
   54, 54, 54, 55, 55, 55, 55, 56, 56, 56, 56, 56, 56, 56, 56, 57, 57, 57, 57, 58,
   58, 58, 58, 59, 59, 59, 59, 60, 60, 60, 60, 61, 61, 61, 61, 62, 62, 62, 62, 63,
   63, 63, 63, 64, 64, 64, 64, 65, 65, 65, 65, 66, 66, 66, 66, 67, 67, 67, 67, 68,
   68, 68, 68, 69, 69, 69, 69, 70, 70, 70, 70, 71, 71, 71, 71, 72, 72, 72, 72, 73]

/-- The entries are `365*-300+-72` to `365*-1+0` and `365*0+0` to `365*299+73`. -/
def g_aoffYear : List Int :=
  (leapDaysBefore1970.zipIdx.map fun off => 365 * ((off.2 : Int) - 300) + -Int.ofNat off.1) ++
    leapDaysFrom1970.zipIdx.map fun off => 365 * (off.2 : Int) + Int.ofNat off.1

/-! ### Exploding -/

def rtTimeIsLeapYear (i32Year : Int) : Bool :=
  i32Year.tmod 4 == 0 && (i32Year.tmod 100 != 0 || i32Year.tmod 400 == 0)

/-- `while (table[i + 1] <= i32Div) i++;`, nothing where it leaves the table. -/
def searchUp (table : List Int) (i32Div : Int) (i : Nat) : Option Nat :=
  if inside : i + 1 < table.length then
    if table[i + 1] ≤ i32Div then searchUp table i32Div (i + 1) else some i
  else none
termination_by table.length - i

/-- `while (table[i] > i32Div) i--;`, nothing where it leaves the table. -/
def searchDown (table : List Int) (i32Div : Int) : Nat → Option Nat
  | 0 => if (table[0]?.any (· ≤ i32Div)) then some 0 else none
  | i + 1 =>
    if inside : i + 1 < table.length then
      if table[i + 1] > i32Div then searchDown table i32Div i else some (i + 1)
    else none

structure Quotient where
  div : Int
  rem : Int

/-- A division of the language, and what the code does where the remainder is negative. -/
def divide (i64Div unit : Int) : Quotient :=
  let i32Rem := int32 (i64Div.tmod unit)
  let i64Div := i64Div.tdiv unit
  if i32Rem < 0 then { div := i64Div - 1, rem := i32Rem + unit }
  else { div := i64Div, rem := i32Rem }

def RTTimeExplode (pTimeSpec : RtTimeSpec) : Option RtTime := do
  let nanoseconds := divide pTimeSpec.i64NanosecondsRelativeToUnixEpoch 1000000000
  let seconds := divide nanoseconds.div 60
  let minutes := divide (int32 seconds.div) 60
  let hours := divide minutes.div 24
  let i32Div := hours.div
  let iYear ← searchUp g_aoffYear i32Div (uint 32 (OFF_YEAR_IDX_EPOCH + i32Div.tdiv 365))
  let iYear ← searchDown g_aoffYear i32Div iYear
  let i32Year := int32 (iYear + OFF_YEAR_IDX_0_YEAR)
  let offYear ← g_aoffYear[iYear]?
  let iDay := i32Div - offYear
  let paiDayOfYear := aiDayOfYear (rtTimeIsLeapYear i32Year)
  let iMonth ← searchUp paiDayOfYear (iDay + 1) (iDay.tdiv 32).toNat
  let offMonth ← paiDayOfYear[iMonth]?
  some {
    i32Year := i32Year
    u8Month := uint 8 (iMonth + 1)
    u8WeekDay := uint 8 ((i32Div.tmod 7 + 3 + 7).tmod 7)
    u16YearDay := uint 16 (iDay + 1)
    u8MonthDay := uint 8 (iDay + 1 - offMonth + 1)
    u8Hour := uint 8 hours.rem
    u8Minute := uint 8 minutes.rem
    u8Second := uint 8 seconds.rem
    u32Nanosecond := uint 32 nanoseconds.rem
    fFlags := RTTIME_FLAGS_TYPE_UTC |||
      if rtTimeIsLeapYear i32Year then RTTIME_FLAGS_LEAP_YEAR else RTTIME_FLAGS_COMMON_YEAR
    offUTC := 0 }

/-! ### Imploding -/

/-- The nanoseconds since midnight. -/
def RtTime.i64Nanos (pTime : RtTime) : Int :=
  pTime.u32Nanosecond +
    (pTime.u8Second + pTime.u8Minute * 60 + pTime.u8Hour * 3600 : Nat) * 1000000000

def RTTimeImplode (pTime : RtTime) : Option RtTimeSpec :=
  if pTime.u32Nanosecond < 1000000000 ∧ pTime.u8Second < 60 ∧ pTime.u8Minute < 60 ∧
      pTime.u8Hour < 24 ∧ pTime.u16YearDay ≥ 1 ∧
      pTime.u16YearDay ≤ (if rtTimeIsLeapYear pTime.i32Year then 366 else 365) ∧
      pTime.i32Year ≤ RTTIME_MAX_YEAR ∧ pTime.i32Year ≥ RTTIME_MIN_YEAR then do
    let offYear ← g_aoffYear[(pTime.i32Year - OFF_YEAR_IDX_0_YEAR).toNat]?
    let i32Days := offYear + pTime.u16YearDay - 1
    if (i32Days ≤ RTTIME_MAX_DAY ∧ i32Days ≥ RTTIME_MIN_DAY) ∧
        (i32Days ≠ RTTIME_MAX_DAY ∨ pTime.i64Nanos ≤ RTTIME_MAX_DAY_NANO) ∧
        (i32Days ≠ RTTIME_MIN_DAY ∨ pTime.i64Nanos ≥ RTTIME_MIN_DAY_NANO) then
      some (RtTimeSpec.wrap (pTime.i64Nanos + i32Days * 86400000000000))
    else none
  else none

end VBox.Runtime.Time
