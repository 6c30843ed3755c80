import Mathlib.Data.Int.SuccPred
import Mathlib.Data.Int.ConditionallyCompleteOrder

/-!
The proleptic Gregorian calendar: dates, and the days counted from 1970-01-01.
-/

namespace VBox.Lib.Gregorian

/-! ### Years and months -/

/-- Every fourth year, and of those that begin a century every fourth. -/
def IsLeap (year : Int) : Prop :=
  year % 4 = 0 ∧ (year % 100 ≠ 0 ∨ year % 400 = 0)

instance (year : Int) : Decidable (IsLeap year) :=
  inferInstanceAs (Decidable (_ ∧ _))

def daysInYear (year : Int) : Nat :=
  if IsLeap year then 366 else 365

def daysInMonth (leap : Prop) [Decidable leap] (month : Nat) : Nat :=
  if month = 2 then if leap then 29 else 28
  else if month = 4 ∨ month = 6 ∨ month = 9 ∨ month = 11 then 30 else 31

/-- The days in the first months of a year. -/
def daysBefore (leap : Prop) [Decidable leap] : Nat → Nat
  | 0 => 0
  | month + 1 => daysBefore leap month + daysInMonth leap (month + 1)

/-- The first of January, counted from that of 1970. -/
def yearStart (year : Int) : Int :=
  365 * (year - 1970) + (year - 1) / 4 - (year - 1) / 100 + (year - 1) / 400 - 477

@[simp] theorem yearStart_epoch : yearStart 1970 = 0 := rfl

theorem yearStart_succ (year : Int) : yearStart (year + 1) = yearStart year + daysInYear year := by
  unfold yearStart daysInYear
  by_cases leap : IsLeap year
  · rw [if_pos leap]
    unfold IsLeap at leap
    omega
  · rw [if_neg leap]
    unfold IsLeap at leap
    omega

theorem daysInYear_pos (year : Int) : 0 < daysInYear year := by
  unfold daysInYear
  split <;> decide

theorem yearStart_strictMono : StrictMono yearStart :=
  strictMono_int_of_lt_succ fun year => by
    have := daysInYear_pos year
    rw [yearStart_succ]
    omega

/-- A day lies in one year only. -/
theorem year_unique {year year' day : Int} (from' : yearStart year ≤ day)
    (until' : day < yearStart (year + 1)) (from'' : yearStart year' ≤ day)
    (until'' : day < yearStart (year' + 1)) : year = year' := by
  have le := yearStart_strictMono.lt_iff_lt.mp (lt_of_le_of_lt from' until'')
  have ge := yearStart_strictMono.lt_iff_lt.mp (lt_of_le_of_lt from'' until')
  omega

section Months

variable (leap : Prop) [Decidable leap]

theorem daysInMonth_le (month : Nat) : daysInMonth leap month ≤ 31 := by
  unfold daysInMonth
  split
  · split <;> decide
  · split <;> decide

theorem le_daysInMonth (month : Nat) : 28 ≤ daysInMonth leap month := by
  unfold daysInMonth
  split
  · split <;> decide
  · split <;> decide

theorem daysBefore_strictMono : StrictMono (daysBefore leap) :=
  strictMono_nat_of_lt_succ fun month => by
    have := le_daysInMonth leap (month + 1)
    rw [daysBefore]
    omega

theorem daysBefore_le (month : Nat) : daysBefore leap month ≤ 31 * month := by
  induction month with
  | zero => exact Nat.le_refl 0
  | succ month ih =>
    have := daysInMonth_le leap (month + 1)
    rw [daysBefore]
    omega

end Months

theorem daysBefore_twelve (year : Int) : daysBefore (IsLeap year) 12 = daysInYear year := by
  by_cases leap : IsLeap year <;> simp [daysBefore, daysInMonth, daysInYear, leap]

/-- A month of a year begins in no other month. -/
theorem month_unique {leap : Prop} [Decidable leap] {m m' day : Nat}
    (from' : daysBefore leap m ≤ day) (until' : day < daysBefore leap (m + 1))
    (from'' : daysBefore leap m' ≤ day) (until'' : day < daysBefore leap (m' + 1)) : m = m' := by
  have le := (daysBefore_strictMono leap).lt_iff_lt.mp (lt_of_le_of_lt from' until'')
  have ge := (daysBefore_strictMono leap).lt_iff_lt.mp (lt_of_le_of_lt from'' until')
  omega

/-- Of a common year only its second month reaches its first of March. -/
theorem eq_of_march {year year' : Int} {month : Nat} (common : ¬ IsLeap year')
    (months : 1 ≤ month ∧ month ≤ 12)
    (after : yearStart year + daysBefore (IsLeap year) (month - 1) < yearStart year' + 59)
    (upTo : yearStart year' + 59 ≤ yearStart year + daysBefore (IsLeap year) month) :
    year = year' ∧ month = 2 := by
  have last := (daysBefore_strictMono (IsLeap year)).monotone months.2
  have next := yearStart_succ year
  have next' := yearStart_succ year'
  have length' : daysInYear year' = 365 := if_neg common
  rw [daysBefore_twelve] at last
  have le := yearStart_strictMono.lt_iff_lt.mp
    (show yearStart year' < yearStart (year + 1) by omega)
  have ge := yearStart_strictMono.lt_iff_lt.mp
    (show yearStart year < yearStart (year' + 1) by omega)
  obtain rfl : year = year' := by omega
  have march : daysBefore (IsLeap year) 2 = 59 := by simp [daysBefore, daysInMonth, common]
  have before := (daysBefore_strictMono (IsLeap year)).lt_iff_lt.mp
    (show daysBefore (IsLeap year) (month - 1) < daysBefore (IsLeap year) 2 by omega)
  have from' := (daysBefore_strictMono (IsLeap year)).le_iff_le.mp
    (show daysBefore (IsLeap year) 2 ≤ daysBefore (IsLeap year) month by omega)
  exact ⟨rfl, by omega⟩

/-- A sequence that starts at or below a value and ends above it passes the value somewhere. -/
theorem exists_step {f : Nat → Int} {day : Int} (start : f 0 ≤ day) {n : Nat} (past : day < f n) :
    ∃ i < n, f i ≤ day ∧ day < f (i + 1) := by
  induction n with
  | zero => exact absurd past (by omega)
  | succ n ih =>
    by_cases already : day < f n
    · obtain ⟨i, lt, bounds⟩ := ih already
      exact ⟨i, by omega, bounds⟩
    · exact ⟨n, by omega, by omega, past⟩

/-! ### Dates -/

@[ext] structure Date where
  year : Int
  month : Nat
  day : Nat
  inYear : 1 ≤ month ∧ month ≤ 12
  inMonth : 1 ≤ day ∧ day ≤ daysInMonth (IsLeap year) month

namespace Date

variable (date : Date)

/-- The first of January is day 1. -/
def dayOfYear : Nat :=
  daysBefore (IsLeap date.year) (date.month - 1) + date.day

/-- The days since 1970-01-01. -/
def dayNumber : Int :=
  yearStart date.year + date.dayOfYear - 1

/-- Monday is 0; 1970-01-01 was a Thursday. -/
def weekDay : Nat :=
  ((date.dayNumber + 3) % 7).toNat

theorem dayOfYear_le_daysBefore : date.dayOfYear ≤ daysBefore (IsLeap date.year) date.month := by
  have before := date.inYear.1
  obtain ⟨month, eq⟩ : ∃ month, date.month = month + 1 := ⟨date.month - 1, by omega⟩
  have inside := date.inMonth.2
  rw [eq] at inside
  rw [dayOfYear, eq, Nat.add_sub_cancel, daysBefore]
  omega

theorem dayOfYear_pos : 0 < date.dayOfYear := by
  have := date.inMonth.1
  rw [dayOfYear]
  omega

theorem dayOfYear_le : date.dayOfYear ≤ daysInYear date.year := by
  have := (daysBefore_strictMono (IsLeap date.year)).monotone date.inYear.2
  rw [daysBefore_twelve] at this
  exact date.dayOfYear_le_daysBefore.trans this

/-- The day is one of the year's. -/
theorem dayNumber_bounds :
    yearStart date.year ≤ date.dayNumber ∧ date.dayNumber < yearStart (date.year + 1) := by
  have pos := date.dayOfYear_pos
  have le := date.dayOfYear_le
  rw [yearStart_succ, dayNumber]
  omega

/-- A day has one date only. -/
theorem dayNumber_injective : Function.Injective dayNumber := by
  intro date date' same
  have bounds := date.dayNumber_bounds
  have bounds' := date'.dayNumber_bounds
  have sameYear : date.year = date'.year :=
    year_unique bounds.1 bounds.2 (same ▸ bounds'.1) (same ▸ bounds'.2)
  obtain ⟨year', month', day', months', days'⟩ := date'
  obtain ⟨year, month, day, months, days⟩ := date
  obtain rfl : year = year' := sameYear
  simp only [dayNumber, dayOfYear] at same
  obtain ⟨m, rfl⟩ : ∃ m, month = m + 1 := ⟨month - 1, by omega⟩
  obtain ⟨m', rfl⟩ : ∃ m', month' = m' + 1 := ⟨month' - 1, by omega⟩
  simp only [Nat.add_sub_cancel] at same
  have inside : daysBefore (IsLeap year) m ≤ daysBefore (IsLeap year) m + day - 1 := by omega
  obtain rfl : m = m' := month_unique inside (by rw [daysBefore]; omega) (by omega)
    (by rw [daysBefore]; omega)
  obtain rfl : day = day' := by omega
  rfl

/-- The date of a day of a year. -/
theorem exists_dayOfYear (year : Int) {day : Nat} (pos : 0 < day) (le : day ≤ daysInYear year) :
    ∃ date : Date, date.year = year ∧ date.dayOfYear = day := by
  rw [← daysBefore_twelve] at le
  have start : (daysBefore (IsLeap year) 0 : Int) ≤ (day - 1 : Nat) := Int.natCast_nonneg _
  have past : ((day - 1 : Nat) : Int) < daysBefore (IsLeap year) 12 := by omega
  obtain ⟨month, lt, from', until'⟩ :=
    exists_step (f := fun month => (daysBefore (IsLeap year) month : Int)) start past
  rw [daysBefore] at until'
  have inside : daysBefore (IsLeap year) month ≤ day := by omega
  exact ⟨⟨year, month + 1, day - daysBefore (IsLeap year) month, by omega, by omega⟩, rfl,
    Nat.add_sub_of_le inside⟩

/-- Every day has a date. -/
theorem exists_dayNumber (day : Int) : ∃ date : Date, date.dayNumber = day := by
  have start : yearStart (1970 - day.natAbs + (0 : Nat)) ≤ day := by
    unfold yearStart
    omega
  have past : day < yearStart (1970 - day.natAbs + (2 * day.natAbs + 1 : Nat)) := by
    unfold yearStart
    omega
  obtain ⟨i, -, from', until'⟩ :=
    exists_step (f := fun i : Nat => yearStart (1970 - day.natAbs + i)) start past
  rw [Nat.cast_succ, ← Int.add_assoc, yearStart_succ] at until'
  obtain ⟨date, year, dayOfYear⟩ := exists_dayOfYear (1970 - day.natAbs + i)
    (Nat.succ_pos (day - yearStart (1970 - day.natAbs + i)).toNat) (by omega)
  exact ⟨date, by rw [dayNumber, year, dayOfYear]; omega⟩

end Date

end VBox.Lib.Gregorian
