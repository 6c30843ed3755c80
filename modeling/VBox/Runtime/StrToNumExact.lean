import Mathlib.Tactic.IntervalCases
import VBox.Runtime.StrToNum

/-!
Numbers that are too big.

An overflow is noticed by a bound on the number before a digit, and by a number that falls. For
bases other than powers of two there is a gap between the two.
-/

namespace VBox.Runtime.StrToNum

open List

/-! ### Signed numbers -/

/-- A signed number of 64 bits. -/
def wrap (i : Int) : Int := i.bmod (2 ^ 64)

/-- The digits of a signed number. -/
def interpretSigned (uBase : Nat) : Int → Bool → List UInt8 → Int × Bool × List UInt8
  | i64, tooBig, [] => (i64, tooBig, [])
  | i64, tooBig, uch :: psz =>
    if uBase ≤ digit uch then (i64, tooBig, uch :: psz)
    else
      let next := wrap (wrap (i64 * uBase) + digit uch)
      interpretSigned uBase next
        (tooBig || i64 > next || i64 / 2 ^ (shifts.getD uBase 0).toNat ≠ 0) psz

/-- `RTStrToInt64Ex`: the status, the number and what follows it. -/
def rtStrToInt64Ex (pszValue : List UInt8) (uBase : Nat) : Status × Int × List UInt8 :=
  let (fPositive, psz) := skipSigns true pszValue
  let (uBase, psz) := skipPrefix uBase psz
  let (i64, tooBig, pszNext) := interpretSigned uBase 0 false psz
  let rc :=
    if pszNext.length = psz.length then .noDigits
    else if tooBig then .numberTooBig
    else trailing pszNext
  (rc, if fPositive then i64 else wrap (-i64), pszNext)

/-! ### Exact numbers -/

/-- The number that some digits stand for, behind a number. -/
def numberFrom (uBase : Nat) (n : Nat) (run : List UInt8) : Nat :=
  run.foldl (fun n uch => n * uBase + digit uch) n

def number (uBase : Nat) (run : List UInt8) : Nat := numberFrom uBase 0 run

/-- The longest run of digits, and what follows it. -/
def digitRun (uBase : Nat) (psz : List UInt8) : List UInt8 :=
  psz.takeWhile fun uch => digit uch < uBase

def behindRun (uBase : Nat) (psz : List UInt8) : List UInt8 :=
  psz.dropWhile fun uch => digit uch < uBase

/-- The parts of a number: whether it is positive, its base, its digits and what follows them. -/
structure Parts where
  fPositive : Bool
  uBase : Nat
  run : List UInt8
  rest : List UInt8

def parts (pszValue : List UInt8) (uBase : Nat) : Parts :=
  let (fPositive, psz) := skipSigns true pszValue
  let (uBase, psz) := skipPrefix uBase psz
  ⟨fPositive, uBase, digitRun uBase psz, behindRun uBase psz⟩

def Parts.number (p : Parts) : Nat := StrToNum.number p.uBase p.run

def Parts.signed (p : Parts) : Int := if p.fPositive then p.number else -p.number

/-- An unsigned number is exact, a negative one modulo 2^64, or reported as too big. -/
def UnsignedExact (pszValue : List UInt8) (uBase : Nat) : Prop :=
  (rtStrToUInt64Ex pszValue uBase).2.2 = (parts pszValue uBase).rest ∧
    if (parts pszValue uBase).number < 2 ^ 64 then
      (rtStrToUInt64Ex pszValue uBase).1 ≠ .numberTooBig ∧
        ((rtStrToUInt64Ex pszValue uBase).2.1.toNat : Int) =
          (parts pszValue uBase).signed % 2 ^ 64
    else (rtStrToUInt64Ex pszValue uBase).1 = .numberTooBig

/-- A signed number is in range. -/
def InRange (i : Int) : Prop := -2 ^ 63 ≤ i ∧ i ≤ 2 ^ 63 - 1

/-- A signed number is exact, or reported as too big. -/
def SignedExact (pszValue : List UInt8) (uBase : Nat) : Prop :=
  (rtStrToInt64Ex pszValue uBase).2.2 = (parts pszValue uBase).rest ∧
    (InRange (parts pszValue uBase).signed → (rtStrToInt64Ex pszValue uBase).1 ≠ .numberTooBig ∧
      (rtStrToInt64Ex pszValue uBase).2.1 = (parts pszValue uBase).signed) ∧
    (¬ InRange (parts pszValue uBase).signed → (rtStrToInt64Ex pszValue uBase).1 = .numberTooBig)

/-! ### What is noticed -/

/-- Some digit is behind a number whose remainder has bits beyond the shift, or makes the remainder
fall. -/
def noticed (uBase : Nat) : Nat → List UInt8 → Bool
  | _, [] => false
  | n, uch :: run =>
    decide (2 ^ (shifts.getD uBase 0).toNat ≤ n % 2 ^ 64 ∨
      (n * uBase + digit uch) % 2 ^ 64 < n % 2 ^ 64) || noticed uBase (n * uBase + digit uch) run

/-- The same for signed remainders. -/
def noticedSigned (uBase : Nat) : Nat → List UInt8 → Bool
  | _, [] => false
  | n, uch :: run =>
    decide (wrap n / 2 ^ (shifts.getD uBase 0).toNat ≠ 0 ∨
      wrap ((n * uBase + digit uch : Nat) : Int) < wrap n) ||
        noticedSigned uBase (n * uBase + digit uch) run

/-- The bases that there are. -/
def IsBase (uBase : Nat) : Prop := 2 ≤ uBase ∧ uBase ≤ 35

variable {uBase : Nat}

theorem shift_bounds (base : IsBase uBase) :
    (shifts.getD uBase 0).toNat < 64 ∧ 2 ^ 64 ≤ 2 ^ (shifts.getD uBase 0).toNat * uBase := by
  obtain ⟨least, most⟩ := base
  interval_cases uBase <;> decide

theorem le_numberFrom (base : IsBase uBase) (n : Nat) (run : List UInt8) :
    n ≤ numberFrom uBase n run := by
  induction run generalizing n with
  | nil => exact Nat.le_refl _
  | cons uch run ih =>
    have grows : n ≤ n * uBase := Nat.le_mul_of_pos_right n (Nat.lt_of_lt_of_le (by decide) base.1)
    exact Nat.le_trans (Nat.le_add_right_of_le grows) (ih _)

/-- A number below the limit comes without a warning. -/
theorem noticed_false (base : IsBase uBase) {n : Nat} {run : List UInt8}
    (small : numberFrom uBase n run < 2 ^ 64) : noticed uBase n run = false := by
  induction run generalizing n with
  | nil => rfl
  | cons uch run ih =>
    have grows : n ≤ n * uBase := Nat.le_mul_of_pos_right n (Nat.lt_of_lt_of_le (by decide) base.1)
    have next : n * uBase + digit uch < 2 ^ 64 :=
      Nat.lt_of_le_of_lt (le_numberFrom base _ run) small
    have before : n < 2 ^ (shifts.getD uBase 0).toNat := by
      by_contra large
      have := Nat.mul_le_mul_right uBase (Nat.not_lt.mp large)
      have := (shift_bounds base).2
      omega
    have now : n % 2 ^ 64 = n := Nat.mod_eq_of_lt (by omega)
    rw [noticed, now, Nat.mod_eq_of_lt next, ih small, Bool.or_false, decide_eq_false_iff_not]
    omega

/-- What the digits come to. -/
theorem interpret_eq (base : IsBase uBase) (n : Nat) (tooBig : Bool) (psz : List UInt8) :
    interpret uBase (UInt64.ofNat n) tooBig psz =
      (UInt64.ofNat (numberFrom uBase n (digitRun uBase psz)),
        tooBig || noticed uBase n (digitRun uBase psz), behindRun uBase psz) := by
  induction psz generalizing n tooBig with
  | nil => simp [interpret, digitRun, behindRun, numberFrom, noticed]
  | cons uch psz ih =>
    rw [interpret]
    by_cases stop : uBase ≤ digit uch
    · have run : digitRun uBase (uch :: psz) = [] := by
        rw [digitRun, takeWhile_cons_of_neg (by simpa using stop)]
      have rest : behindRun uBase (uch :: psz) = uch :: psz := by
        rw [behindRun, dropWhile_cons_of_neg (by simpa using stop)]
      rw [if_pos stop, run, rest]
      simp [numberFrom, noticed]
    · have run : digitRun uBase (uch :: psz) = uch :: digitRun uBase psz := by
        rw [digitRun, takeWhile_cons_of_pos (by simpa using stop)]
        rfl
      have rest : behindRun uBase (uch :: psz) = behindRun uBase psz := by
        rw [behindRun, dropWhile_cons_of_pos (by simpa using stop)]
        rfl
      have next : UInt64.ofNat n * UInt64.ofNat uBase + UInt64.ofNat (digit uch) =
          UInt64.ofNat (n * uBase + digit uch) := by
        rw [UInt64.ofNat_add, UInt64.ofNat_mul]
      have shifted : UInt64.ofNat n >>> shifts.getD uBase 0 ≠ 0 ↔
          2 ^ (shifts.getD uBase 0).toNat ≤ n % 2 ^ 64 := by
        have bound := (shift_bounds base).1
        rw [ne_eq, ← UInt64.toNat_inj, UInt64.toNat_shiftRight, UInt64.toNat_ofNat',
          Nat.shiftRight_eq_div_pow, Nat.mod_eq_of_lt bound, UInt64.toNat_zero,
          Nat.div_eq_zero_iff, not_or]
        exact ⟨fun h => Nat.not_lt.mp h.2, fun h =>
          ⟨Nat.ne_of_gt (Nat.two_pow_pos _), Nat.not_lt.mpr h⟩⟩
      have falls : UInt64.ofNat n > UInt64.ofNat (n * uBase + digit uch) ↔
          (n * uBase + digit uch) % 2 ^ 64 < n % 2 ^ 64 := by
        rw [gt_iff_lt, UInt64.lt_iff_toNat_lt, UInt64.toNat_ofNat', UInt64.toNat_ofNat']
      rw [if_neg stop]
      simp only [next]
      rw [ih, run, rest, noticed]
      simp only [shifted, falls, numberFrom, foldl_cons, Bool.decide_or, Bool.or_assoc]
      rw [Bool.or_left_comm (decide (_ < _))]

theorem wrap_eq {i : Int} (inRange : InRange i) : wrap i = i := by
  unfold InRange at inRange
  exact Int.bmod_eq_of_le (by omega) (by omega)

/-- A signed number that comes below the limit comes without a warning. -/
theorem noticedSigned_false (base : IsBase uBase) {n : Nat} {run : List UInt8}
    (small : numberFrom uBase n run < 2 ^ 63) : noticedSigned uBase n run = false := by
  induction run generalizing n with
  | nil => rfl
  | cons uch run ih =>
    have grows : n ≤ n * uBase := Nat.le_mul_of_pos_right n (Nat.lt_of_lt_of_le (by decide) base.1)
    have next : n * uBase + digit uch < 2 ^ 63 :=
      Nat.lt_of_le_of_lt (le_numberFrom base _ run) small
    have before : n < 2 ^ (shifts.getD uBase 0).toNat := by
      by_contra large
      have := Nat.mul_le_mul_right uBase (Nat.not_lt.mp large)
      have := (shift_bounds base).2
      omega
    have now : wrap n = n := wrap_eq (by unfold InRange; omega)
    have then' : wrap ((n * uBase + digit uch : Nat) : Int) = (n * uBase + digit uch : Nat) :=
      wrap_eq (by unfold InRange; omega)
    have quotient : (n : Int) / 2 ^ (shifts.getD uBase 0).toNat = 0 :=
      Int.ediv_eq_zero_of_lt (Int.natCast_nonneg n) (by exact_mod_cast before)
    rw [noticedSigned, now, then', ih small, Bool.or_false, decide_eq_false_iff_not, quotient]
    omega

/-- The number 2^63 is never reached without a warning. -/
theorem noticedSigned_limit (base : IsBase uBase) {n : Nat} {run : List UInt8} (small : n < 2 ^ 63)
    (limit : numberFrom uBase n run = 2 ^ 63) : noticedSigned uBase n run = true := by
  induction run generalizing n with
  | nil => exact absurd limit (Nat.ne_of_lt small)
  | cons uch run ih =>
    have below := le_numberFrom base (n * uBase + digit uch) run
    have whole : numberFrom uBase (n * uBase + digit uch) run = 2 ^ 63 := limit
    rw [noticedSigned]
    by_cases next : n * uBase + digit uch < 2 ^ 63
    · rw [ih next limit, Bool.or_true]
    · have same : n * uBase + digit uch = 2 ^ 63 := by omega
      have now : wrap n = n := wrap_eq (by unfold InRange; omega)
      have falls : wrap ((2 ^ 63 : Nat) : Int) < n := by
        rw [show wrap ((2 ^ 63 : Nat) : Int) = -2 ^ 63 by decide]
        omega
      rw [same, now, decide_eq_true (.inr falls), Bool.true_or]

/-- What signed digits come to. -/
theorem interpretSigned_eq (n : Nat) (tooBig : Bool) (psz : List UInt8) :
    interpretSigned uBase (wrap n) tooBig psz = (wrap (numberFrom uBase n (digitRun uBase psz)),
        tooBig || noticedSigned uBase n (digitRun uBase psz), behindRun uBase psz) := by
  induction psz generalizing n tooBig with
  | nil => simp [interpretSigned, digitRun, behindRun, numberFrom, noticedSigned]
  | cons uch psz ih =>
    rw [interpretSigned]
    by_cases stop : uBase ≤ digit uch
    · have run : digitRun uBase (uch :: psz) = [] := by
        rw [digitRun, takeWhile_cons_of_neg (by simpa using stop)]
      have rest : behindRun uBase (uch :: psz) = uch :: psz := by
        rw [behindRun, dropWhile_cons_of_neg (by simpa using stop)]
      rw [if_pos stop, run, rest]
      simp [numberFrom, noticedSigned]
    · have run : digitRun uBase (uch :: psz) = uch :: digitRun uBase psz := by
        rw [digitRun, takeWhile_cons_of_pos (by simpa using stop)]
        rfl
      have rest : behindRun uBase (uch :: psz) = behindRun uBase psz := by
        rw [behindRun, dropWhile_cons_of_pos (by simpa using stop)]
        rfl
      have next : wrap (wrap (wrap n * uBase) + digit uch) =
          wrap ((n * uBase + digit uch : Nat) : Int) := by
        simp only [wrap, Int.bmod_add_bmod, Int.bmod_mul_bmod, Nat.cast_add, Nat.cast_mul]
      rw [if_neg stop]
      simp only [next]
      rw [ih, run, rest, noticedSigned]
      simp only [gt_iff_lt, numberFrom, foldl_cons, Bool.decide_or, Bool.or_assoc]
      rw [Bool.or_left_comm (decide (_ < _))]

/-! ### Exactness -/

theorem skipPrefix_isBase (base : uBase = 0 ∨ IsBase uBase) (psz : List UInt8) :
    IsBase (skipPrefix uBase psz).1 := by
  unfold skipPrefix
  split_ifs with zero hex octal hex'
  · exact (⟨by decide, by decide⟩ : IsBase 16)
  · exact (⟨by decide, by decide⟩ : IsBase 8)
  · exact (⟨by decide, by decide⟩ : IsBase 10)
  · exact (⟨by decide, by decide⟩ : IsBase 16)
  · exact base.resolve_left zero

theorem behindRun_length (uBase : Nat) (psz : List UInt8) :
    (behindRun uBase psz).length = psz.length ↔ digitRun uBase psz = [] := by
  have whole := congrArg length
    (takeWhile_append_dropWhile (p := fun uch => decide (digit uch < uBase)) (l := psz))
  rw [length_append] at whole
  rw [behindRun, digitRun, ← length_eq_zero_iff]
  omega

theorem trailing_ne (psz : List UInt8) : trailing psz ≠ .numberTooBig := by
  unfold trailing
  split_ifs <;> simp

/-- What an unsigned conversion makes of the parts. -/
theorem rtStrToUInt64Ex_parts (base : uBase = 0 ∨ IsBase uBase) (psz : List UInt8) :
    IsBase (parts psz uBase).uBase ∧ (rtStrToUInt64Ex psz uBase).2.2 = (parts psz uBase).rest ∧
      ((rtStrToUInt64Ex psz uBase).1 = .numberTooBig ↔ (parts psz uBase).run ≠ [] ∧
        noticed (parts psz uBase).uBase 0 (parts psz uBase).run = true) ∧
      (rtStrToUInt64Ex psz uBase).2.1 =
        if (parts psz uBase).fPositive then UInt64.ofNat (parts psz uBase).number
        else 0 - UInt64.ofNat (parts psz uBase).number := by
  have base' := skipPrefix_isBase base (skipSigns true psz).2
  have digits := interpret_eq base' 0 false (skipPrefix uBase (skipSigns true psz).2).2
  have none := behindRun_length (skipPrefix uBase (skipSigns true psz).2).1
    (skipPrefix uBase (skipSigns true psz).2).2
  rw [show UInt64.ofNat 0 = 0 from rfl, Bool.false_or] at digits
  refine ⟨base', ?_, ?_, ?_⟩
  · simp only [rtStrToUInt64Ex, digits, parts]
  · simp only [rtStrToUInt64Ex, digits, parts, none]
    split_ifs <;> simp_all [trailing_ne]
  · simp only [rtStrToUInt64Ex, digits, parts, Parts.number, number]
    rfl

/-- What a signed conversion makes of them. -/
theorem rtStrToInt64Ex_parts (psz : List UInt8) (uBase : Nat) :
    (rtStrToInt64Ex psz uBase).2.2 = (parts psz uBase).rest ∧
      ((rtStrToInt64Ex psz uBase).1 = .numberTooBig ↔ (parts psz uBase).run ≠ [] ∧
        noticedSigned (parts psz uBase).uBase 0 (parts psz uBase).run = true) ∧
      (rtStrToInt64Ex psz uBase).2.1 =
        if (parts psz uBase).fPositive then wrap (parts psz uBase).number
        else wrap (-wrap (parts psz uBase).number) := by
  have digits := @interpretSigned_eq (skipPrefix uBase (skipSigns true psz).2).1 0 false
    (skipPrefix uBase (skipSigns true psz).2).2
  have none := behindRun_length (skipPrefix uBase (skipSigns true psz).2).1
    (skipPrefix uBase (skipSigns true psz).2).2
  rw [show wrap ((0 : Nat) : Int) = 0 from rfl, Bool.false_or] at digits
  refine ⟨?_, ?_, ?_⟩
  · simp only [rtStrToInt64Ex, digits, parts]
  · simp only [rtStrToInt64Ex, digits, parts, none]
    split_ifs <;> simp_all [trailing_ne]
  · simp only [rtStrToInt64Ex, digits, parts, Parts.number, number]
    rfl

/-- A number that fits comes out as it is. -/
theorem wrap_signed {v : Nat} {fPositive : Bool}
    (inRange : InRange (if fPositive then (v : Int) else -v)) :
    (if fPositive then wrap v else wrap (-wrap v)) = if fPositive then (v : Int) else -v := by
  cases fPositive with
  | true =>
    simp only [if_true] at inRange ⊢
    exact wrap_eq inRange
  | false =>
    simp only [Bool.false_eq_true, if_false] at inRange ⊢
    obtain rfl | small : v = 2 ^ 63 ∨ v < 2 ^ 63 := by
      unfold InRange at inRange
      omega
    · have least : wrap ((2 ^ 63 : Nat) : Int) = -2 ^ 63 := by decide
      rw [least]
      rfl
    · have same : wrap v = v := wrap_eq (by unfold InRange; omega)
      rw [same, wrap_eq inRange]

theorem unsignedExact_iff (base : uBase = 0 ∨ IsBase uBase) (psz : List UInt8) :
    UnsignedExact psz uBase ↔ (parts psz uBase).number < 2 ^ 64 ∨
      noticed (parts psz uBase).uBase 0 (parts psz uBase).run = true := by
  obtain ⟨base', rest, tooBig, value⟩ := rtStrToUInt64Ex_parts base psz
  rw [UnsignedExact, rest, ne_eq, tooBig, value, Parts.signed]
  generalize (parts psz uBase).fPositive = fPositive
  by_cases fits : (parts psz uBase).number < 2 ^ 64
  · have quiet : noticed (parts psz uBase).uBase 0 (parts psz uBase).run = false :=
      noticed_false base' fits
    have stored : (UInt64.ofNat (parts psz uBase).number).toNat = (parts psz uBase).number :=
      UInt64.toNat_ofNat_of_lt' fits
    have exact' : (((if fPositive then UInt64.ofNat (parts psz uBase).number
          else 0 - UInt64.ofNat (parts psz uBase).number : UInt64).toNat : Nat) : Int) =
        (if fPositive then ((parts psz uBase).number : Int) else -(parts psz uBase).number) %
          2 ^ 64 := by
      cases fPositive with
      | true =>
        simp only [if_true, stored]
        omega
      | false =>
        simp only [Bool.false_eq_true, if_false, UInt64.toNat_sub, stored, UInt64.toNat_zero]
        omega
    simp only [fits, if_true, quiet, exact', Bool.false_eq_true, and_false, not_false_iff, true_and,
      true_or]
  · have some : (parts psz uBase).run ≠ [] := by
      intro none
      rw [Parts.number, none] at fits
      exact fits (show 0 < 2 ^ 64 by decide)
    simp only [some, fits, if_false, ne_eq, not_false_iff, true_and, false_or]

theorem signedExact_iff (base : uBase = 0 ∨ IsBase uBase) (psz : List UInt8) :
    SignedExact psz uBase ↔
      (InRange (parts psz uBase).signed ∧ (parts psz uBase).signed ≠ -2 ^ 63) ∨
        (¬ InRange (parts psz uBase).signed ∧
          noticedSigned (parts psz uBase).uBase 0 (parts psz uBase).run = true) := by
  obtain ⟨base', -⟩ := rtStrToUInt64Ex_parts base psz
  obtain ⟨rest, tooBig, value⟩ := rtStrToInt64Ex_parts psz uBase
  have least : (parts psz uBase).number = 2 ^ 63 →
      noticedSigned (parts psz uBase).uBase 0 (parts psz uBase).run = true :=
    noticedSigned_limit base' (by decide)
  have small : (parts psz uBase).number < 2 ^ 63 →
      noticedSigned (parts psz uBase).uBase 0 (parts psz uBase).run = false :=
    noticedSigned_false base'
  have some : (parts psz uBase).number ≠ 0 → (parts psz uBase).run ≠ [] := by
    intro more none
    rw [Parts.number, none] at more
    exact more rfl
  rw [SignedExact, rest, ne_eq, tooBig, value, Parts.signed]
  generalize (parts psz uBase).fPositive = fPositive
  generalize (parts psz uBase).number = v at *
  by_cases inRange : InRange (if fPositive then (v : Int) else -v)
  · rw [wrap_signed inRange]
    simp only [inRange, not_true, false_imp_iff, true_imp_iff, and_true, true_and, false_and,
      or_false]
    by_cases limit : (if fPositive then (v : Int) else -v) = -2 ^ 63
    · have same : v = 2 ^ 63 := by
        cases fPositive <;> simp only [Bool.false_eq_true, if_true, if_false] at limit <;> omega
      simp [limit, least same, some (same ▸ by decide)]
    · have below : v < 2 ^ 63 := by
        unfold InRange at inRange
        cases fPositive <;> simp only [Bool.false_eq_true, if_true, if_false] at limit inRange <;>
          omega
      simp only [limit, small below, Bool.false_eq_true, and_false, not_false_iff, ne_eq]
  · have large : v ≠ 0 := by
      rintro rfl
      exact inRange (by cases fPositive <;> exact ⟨by decide, by decide⟩)
    simp [inRange, some large]

/-- The digits of 20500000000000000000, which comes out as 2053255926290448384. -/
def unnoticed : List UInt8 :=
  [0x32, 0x30, 0x35, 0x30, 0x30, 0x30, 0x30, 0x30, 0x30, 0x30, 0x30, 0x30, 0x30, 0x30, 0x30, 0x30,
    0x30, 0x30, 0x30, 0x30]

end VBox.Runtime.StrToNum
