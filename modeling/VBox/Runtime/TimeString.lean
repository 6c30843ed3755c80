import VBox.Runtime.StrToNumExact
import VBox.Runtime.TimeNormalizeExact

/-!
Times as ISO date strings.

What stood in the structure before is part of what `RTTimeFromString` is given: two fields are
never set. The buffer of `RTTimeToString` is large enough.
-/

namespace VBox.Runtime.Time

open VBox.Lib.Gregorian VBox.Runtime.StrToNum List

/-! ### Formatting -/

def chZ : UInt8 := 0x5a
def chT : UInt8 := 0x54
def chColon : UInt8 := 0x3a
def chDot : UInt8 := 0x2e

/-- A decimal number, with zeros in front up to a width. -/
def number (width n : Nat) : List UInt8 :=
  let digits := (Nat.toDigits 10 n).map fun ch => UInt8.ofNat ch.toNat
  List.replicate (width - digits.length) chZero ++ digits

/-- `%RI32-%02u-%02uT%02u:%02u:%02u.%09RU32` -/
def dateAndTime (pTime : RtTime) : List UInt8 :=
  (if pTime.i32Year < 0 then [chMinus] else []) ++ number 0 pTime.i32Year.natAbs ++
    chMinus :: number 2 pTime.u8Month ++ chMinus :: number 2 pTime.u8MonthDay ++
    chT :: number 2 pTime.u8Hour ++ chColon :: number 2 pTime.u8Minute ++
    chColon :: number 2 pTime.u8Second ++ chDot :: number 9 pTime.u32Nanosecond

/-- Of `%02%02` behind the sign the formatter drops `%02%`, which is no conversion, and prints
the rest. -/
def RTTimeToString (pTime : RtTime) : Option (List UInt8) :=
  if pTime.fFlags &&& RTTIME_FLAGS_TYPE_MASK = RTTIME_FLAGS_TYPE_LOCAL ∧ pTime.offUTC ≠ 0 then
    let chSign := if pTime.offUTC ≥ 0 then chPlus else chMinus
    let psz := dateAndTime pTime ++ [chSign, chZero, 0x32]
    if psz.length ≤ 15 ∨ charAt psz (psz.length - 5) ≠ chSign then none else some psz
  else
    let psz := dateAndTime pTime ++ [chZ]
    if psz.length ≤ 15 ∨ charAt psz (psz.length - 1) ≠ chZ then none else some psz

theorem mem_number {width n : Nat} {ch : UInt8} (mem : ch ∈ number width n) :
    ch ≠ chPlus ∧ ch ≠ chMinus := by
  obtain zeros | digits := mem_append.mp mem
  · rw [eq_of_mem_replicate zeros]
    decide
  · obtain ⟨c, digit, rfl⟩ := List.mem_map.mp digits
    have bounds := Nat.isDigit_of_mem_toDigits (by decide) (by decide) digit
    simp only [Char.isDigit, Bool.and_eq_true, decide_eq_true_eq, UInt32.le_iff_toNat_le] at bounds
    change 48 ≤ c.toNat ∧ c.toNat ≤ 57 at bounds
    have value : (UInt8.ofNat c.toNat).toNat = c.toNat := Nat.mod_eq_of_lt (by omega)
    constructor <;> intro same <;> rw [same] at value
    · exact absurd (show 43 = c.toNat from value) (by omega)
    · exact absurd (show 45 = c.toNat from value) (by omega)

/-- A local time with an offset has no string: the sign is looked for among the nanoseconds. -/
theorem toString_local {pTime : RtTime}
    (isLocal : pTime.fFlags &&& RTTIME_FLAGS_TYPE_MASK = RTTIME_FLAGS_TYPE_LOCAL)
    (offset : pTime.offUTC ≠ 0) : RTTimeToString pTime = none := by
  rw [RTTimeToString, if_pos ⟨isLocal, offset⟩]
  obtain ⟨front, split⟩ : ∃ front, dateAndTime pTime = front ++ number 9 pTime.u32Nanosecond :=
    ⟨_, append_cons _ _ _⟩
  have long : 9 ≤ (number 9 pTime.u32Nanosecond).length := by
    rw [number, length_append, length_replicate]
    omega
  refine if_pos (.inr fun sign => ?_)
  rw [split, charAt, getD_eq_getElem?_getD, getElem?_append_left (by simp; omega),
    getElem?_append_right (by simp; omega), getElem?_eq_getElem (by simp; omega),
    Option.getD_some] at sign
  have inside : (if pTime.offUTC ≥ 0 then chPlus else chMinus) ∈ number 9 pTime.u32Nanosecond :=
    sign ▸ getElem_mem _
  have digit := mem_number inside
  split at digit
  · exact digit.1 rfl
  · exact digit.2 rfl

def RTTimeSpecToString (pTimeSpec : RtTimeSpec) : Option (List UInt8) :=
  (RTTimeExplode pTimeSpec).bind RTTimeToString

/-! ### Parsing -/

/-- `RTStrToUInt8Ex` and `RTStrToUInt32Ex` with the status wanted: the value and what follows. -/
def unsignedField (mask : UInt64) (wanted : List Status) (psz : List UInt8) :
    Option (Nat × List UInt8) :=
  let (rc, u64, pszNext) := rtStrToUInt64Ex psz 10
  let rc := if rc.isSuccess ∧ u64 > mask then .numberTooBig else rc
  if rc ∈ wanted then some ((u64 &&& mask).toNat, pszNext) else none

/-- `RTStrToInt32Ex` with the status wanted. -/
def signedField (wanted : List Status) (psz : List UInt8) : Option (Int × List UInt8) :=
  let (rc, i64, pszNext) := rtStrToInt64Ex psz 10
  let rc := if rc.isSuccess ∧ i64 ≠ int32 i64 then .numberTooBig else rc
  if rc ∈ wanted then some (int32 i64, pszNext) else none

/-- `*pszString++ != ch` -/
def skip (ch : UInt8) (psz : List UInt8) : Option (List UInt8) :=
  if charAt psz 0 = ch then some (psz.drop 1) else none

/-- What ends the string, or is followed by blanks or by more. -/
def atEnd : List Status := [.success, .trailingChars, .trailingSpaces]

/-- The fields that are set. -/
structure Parsed where
  i32Year : Int
  u8Month : Nat
  u16YearDay : Nat
  u8MonthDay : Nat
  u8Hour : Nat
  u8Minute : Nat
  u32Nanosecond : Nat
  fFlags : BitVec 32
  offUTC : Int

/-- The day part, the hour, and the minute with the second stored over it. -/
def parseFront (pszString : List UInt8) : Option (Parsed × List UInt8) := do
  let psz := pszString.dropWhile fun ch => ch = 0x20 ∨ (0x09 ≤ ch ∧ ch ≤ 0x0d)
  let (i32Year, psz) ← signedField [.trailingChars] psz
  let fLeapYear := rtTimeIsLeapYear i32Year
  let psz ← skip chMinus psz
  let (u8Month, psz) ← unsignedField 0xff [.trailingChars] psz
  guard (u8Month ≠ 0 ∧ u8Month ≤ 12)
  let psz ← skip chMinus psz
  let (u8MonthDay, psz) ← unsignedField 0xff [.trailingChars, .success] psz
  -- Both arms of the source read the table of leap years.
  let cDaysInMonth ← g_acDaysInMonthsLeap[u8Month - 1]?
  guard (u8MonthDay ≠ 0 ∧ u8MonthDay ≤ cDaysInMonth)
  let iDay ← (aiDayOfYear fLeapYear)[u8Month - 1]?
  let psz ← skip chT psz
  let (u8Hour, psz) ← unsignedField 0xff [.trailingChars] psz
  guard (u8Hour ≤ 23)
  let psz ← skip chColon psz
  let (u8Minute, psz) ← unsignedField 0xff [.trailingChars] psz
  guard (u8Minute ≤ 59)
  let psz ← skip chColon psz
  let (u8Minute, psz) ← unsignedField 0xff atEnd psz
  some (⟨i32Year, u8Month, uint 16 (u8MonthDay - 1 + iDay), u8MonthDay, u8Hour, u8Minute, 0,
    RTTIME_FLAGS_TYPE_LOCAL ||| (if fLeapYear then RTTIME_FLAGS_LEAP_YEAR else 0), 0⟩, psz)

/-- The nanoseconds. -/
def parseNanosecond (front : Parsed × List UInt8) : Option (Parsed × List UInt8) :=
  if charAt front.2 0 = chDot then do
    let (u32Nanosecond, psz) ← unsignedField 0xffffffff atEnd (front.2.drop 1)
    guard (u32Nanosecond < 1000000000)
    some ({ front.1 with u32Nanosecond := u32Nanosecond }, psz)
  else some front

/-- The time zone. -/
def parseZone (front : Parsed × List UInt8) : Option (Parsed × List UInt8) :=
  if charAt front.2 0 = chZ then
    some ({ front.1 with
      fFlags := front.1.fFlags &&& ~~~RTTIME_FLAGS_TYPE_MASK ||| ~~~RTTIME_FLAGS_TYPE_UTC
      offUTC := 0 }, front.2.drop 1)
  else if charAt front.2 0 = chPlus ∨ charAt front.2 0 = chMinus then
    (signedField atEnd front.2).map fun (offUTC, psz) => ({ front.1 with offUTC := offUTC }, psz)
  else some front

/-- What becomes of the structure. -/
def Parsed.store (parsed : Parsed) (pTime : RtTime) : RtTime :=
  { pTime with
    i32Year := parsed.i32Year
    u8Month := parsed.u8Month
    u16YearDay := parsed.u16YearDay
    u8MonthDay := parsed.u8MonthDay
    u8Hour := parsed.u8Hour
    u8Minute := parsed.u8Minute
    u32Nanosecond := parsed.u32Nanosecond
    fFlags := parsed.fFlags
    offUTC := parsed.offUTC }

/-- The second is checked where none was stored. -/
def RTTimeFromString (pTime : RtTime) (pszString : List UInt8) : Option RtTime := do
  let front ← parseFront pszString
  guard (pTime.u8Second ≤ 59)
  let front ← parseNanosecond front
  let (parsed, psz) ← parseZone front
  guard (psz.all fun ch => ch = 0x20 ∨ ch = 0x09)
  some (parsed.store pTime)

/-- `Time` is what the function finds on the stack. -/
def RTTimeSpecFromString (Time : RtTime) (pszString : List UInt8) : Option RtTimeSpec :=
  (RTTimeFromString Time pszString).bind RTTimeImplode

/-! ### Round trips, and what is accepted -/

/-- A nanosecond count comes back, whatever was on the stack. -/
def SpecRoundTrips (pTimeSpec : RtTimeSpec) : Prop :=
  ∀ Time : RtTime, Time.Typed →
    (RTTimeSpecToString pTimeSpec).bind (RTTimeSpecFromString Time) = some pTimeSpec

/-- All fields of a time come back, whatever the structure held. -/
def RoundTrips (pTime : RtTime) : Prop :=
  ∀ pTime' : RtTime, pTime'.Typed →
    (RTTimeToString pTime).bind (RTTimeFromString pTime') = some pTime

/-- What is accepted is a date, and no field is left from before. -/
def Strict (pszString : List UInt8) : Prop :=
  ∀ pTime pTime' : RtTime, pTime.Typed → RTTimeFromString pTime pszString = some pTime' →
    (∃ date : Date, pTime'.i32Year = date.year ∧ pTime'.u8Month = date.month ∧
      pTime'.u8MonthDay = date.day) ∧
    ∀ pTime'' : RtTime, pTime''.Typed → RTTimeFromString pTime'' pszString = some pTime'

/-- A second left from before that is none refuses every string. -/
theorem fromString_second {pTime : RtTime} (left : 60 ≤ pTime.u8Second) (psz : List UInt8) :
    RTTimeFromString pTime psz = none := by
  have refused : ¬ pTime.u8Second ≤ 59 := by omega
  rw [RTTimeFromString]
  cases parseFront psz with
  | none => rfl
  | some front => simp [guard, refused]

/-- A structure with the second 60 in it. -/
def leftover : RtTime := ⟨0, 0, 0, 0, 0, 0, 0, 60, 0, 0, 0⟩

theorem leftover_typed : leftover.Typed :=
  ⟨by decide, by decide, by decide, by decide, by decide, by decide, by decide, by decide,
    by decide⟩

theorem not_specRoundTrips (pTimeSpec : RtTimeSpec) : ¬ SpecRoundTrips pTimeSpec := by
  intro back
  obtain ⟨psz, -, parsed⟩ := Option.bind_eq_some_iff.mp (back leftover leftover_typed)
  rw [RTTimeSpecFromString, fromString_second (by decide)] at parsed
  cases parsed

/-- Nothing comes back for certain, a local time with an offset has no string, and no accepted
string is free of what was left. -/
theorem never_roundTrips (pTimeSpec : RtTimeSpec) (pTime : RtTime) (pszString : List UInt8) :
    ¬ SpecRoundTrips pTimeSpec ∧
    (¬ RoundTrips pTime ∧
      (pTime.fFlags &&& RTTIME_FLAGS_TYPE_MASK = RTTIME_FLAGS_TYPE_LOCAL → pTime.offUTC ≠ 0 →
        RTTimeToString pTime = none)) ∧
    (Strict pszString ↔
      ∀ pTime : RtTime, pTime.Typed → RTTimeFromString pTime pszString = none) := by
  refine ⟨not_specRoundTrips _, ⟨fun back => ?_, toString_local⟩, fun strict => ?_, ?_⟩
  · obtain ⟨psz, -, parsed⟩ := Option.bind_eq_some_iff.mp (back leftover leftover_typed)
    rw [fromString_second (by decide)] at parsed
    cases parsed
  · intro pTime typed
    by_contra accepted
    obtain ⟨pTime', parsed⟩ := Option.ne_none_iff_exists'.mp accepted
    have other := (strict pTime pTime' typed parsed).2 leftover leftover_typed
    rw [fromString_second (by decide)] at other
    cases other
  · intro refused pTime pTime' typed parsed
    rw [refused pTime typed] at parsed
    cases parsed

/-- `2011-02-29T12:30:45Z` -/
def leapDayText : List UInt8 :=
  [0x32, 0x30, 0x31, 0x31, 0x2d, 0x30, 0x32, 0x2d, 0x32, 0x39, 0x54, 0x31, 0x32, 0x3a, 0x33, 0x30,
    0x3a, 0x34, 0x35, 0x5a]

/-- The epoch need not come back; and a day that is none is accepted, its second for a minute. -/
theorem not_specRoundTrips_epoch : ¬ SpecRoundTrips (RtTimeSpec.wrap 0) ∧
    RTTimeFromString february leapDayText =
      some ⟨2011, 2, 0, 60, 29, 12, 45, 0, 0, ~~~RTTIME_FLAGS_TYPE_UTC, 0⟩ :=
  ⟨not_specRoundTrips _, by decide +kernel⟩

end VBox.Runtime.Time
