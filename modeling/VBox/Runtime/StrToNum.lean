import Mathlib.Data.List.Basic
import Mathlib.Tactic.Common

/-!
Strings to unsigned numbers.

A terminated string is the list of its characters; what is read at its end is the terminator.
-/

namespace VBox.Runtime.StrToNum

/-! ### Tables -/

/-- An entry of `g_auchDigits`. -/
def digit (ch : UInt8) : Nat :=
  if 0x30 ≤ ch ∧ ch ≤ 0x39 then (ch - 0x30).toNat
  else if 0x41 ≤ ch ∧ ch ≤ 0x5a then (ch - 0x37).toNat
  else if 0x61 ≤ ch ∧ ch ≤ 0x7a then (ch - 0x57).toNat
  else 255

/-- `g_auchShift`. -/
def shifts : List UInt64 :=
  [64, 64, 63, 63, 62, 62, 62, 62, 61, 61, 61, 61, 61, 61, 61, 61, 60, 60, 60, 60, 60, 60, 60, 60,
    60, 60, 60, 60, 60, 60, 60, 60, 59, 59, 59, 59]

def chPlus : UInt8 := 0x2b
def chMinus : UInt8 := 0x2d
def chZero : UInt8 := 0x30

/-! ### Conversion -/

inductive Status where
  | success
  | numberTooBig
  | negativeUnsigned
  | trailingChars
  | trailingSpaces
  | noDigits
  deriving DecidableEq

/-- All but the last one are warnings. -/
def Status.isSuccess (rc : Status) : Bool := rc != .noDigits

/-- The character at an index, or the terminator. -/
def charAt (psz : List UInt8) (i : Nat) : UInt8 := psz.getD i 0

/-- The signs in front of a number: whether it is positive, and what follows them. -/
def skipSigns : Bool → List UInt8 → Bool × List UInt8
  | fPositive, [] => (fPositive, [])
  | fPositive, ch :: psz =>
    if ch = chPlus then skipSigns true psz
    else if ch = chMinus then skipSigns (!fPositive) psz
    else (fPositive, ch :: psz)

/-- There is a prefix `0x` with a digit behind it. -/
def hasHexPrefix (psz : List UInt8) : Bool :=
  charAt psz 0 = chZero ∧ (charAt psz 1 = 0x78 ∨ charAt psz 1 = 0x58) ∧ digit (charAt psz 2) < 16

/-- The base of a number, and what follows its prefix. -/
def skipPrefix (uBase : Nat) (psz : List UInt8) : Nat × List UInt8 :=
  if uBase = 0 then
    if hasHexPrefix psz then (16, psz.drop 2)
    else if charAt psz 0 = chZero ∧ digit (charAt psz 1) < 8 then (8, psz.drop 1)
    else (10, psz)
  else if uBase = 16 ∧ hasHexPrefix psz then (16, psz.drop 2)
  else (uBase, psz)

/-- The digits: the value, whether it is too big, and what follows them. -/
def interpret (uBase : Nat) : UInt64 → Bool → List UInt8 → UInt64 × Bool × List UInt8
  | u64, tooBig, [] => (u64, tooBig, [])
  | u64, tooBig, uch :: psz =>
    if uBase ≤ digit uch then (u64, tooBig, uch :: psz)
    else
      let next := u64 * UInt64.ofNat uBase + UInt64.ofNat (digit uch)
      interpret uBase next (tooBig || u64 > next || u64 >>> shifts.getD uBase 0 ≠ 0) psz

/-- What there is behind a number that came out well. -/
def trailing (psz : List UInt8) : Status :=
  if psz = [] then .success
  else if psz.dropWhile (fun ch => ch = 0x20 ∨ ch = 0x09) = [] then .trailingSpaces
  else .trailingChars

/-- `RTStrToUInt64Ex`: the status, the number and what follows it. -/
def rtStrToUInt64Ex (pszValue : List UInt8) (uBase : Nat) : Status × UInt64 × List UInt8 :=
  let (fPositive, psz) := skipSigns true pszValue
  let (uBase, psz) := skipPrefix uBase psz
  let (u64, tooBig, pszNext) := interpret uBase 0 false psz
  let rc :=
    if pszNext.length = psz.length then .noDigits
    else if tooBig then .numberTooBig
    else if !fPositive then .negativeUnsigned
    else trailing pszNext
  (rc, if fPositive then u64 else 0 - u64, pszNext)

/-- `RTStrToUInt8Ex`. -/
def rtStrToUInt8Ex (pszValue : List UInt8) (uBase : Nat) : Status × UInt8 :=
  let (rc, u64, _) := rtStrToUInt64Ex pszValue uBase
  (if rc.isSuccess ∧ u64 > 0xff then .numberTooBig else rc, u64.toUInt8)

/-! ### Numbers of two characters -/

def IsHex (ch : UInt8) : Prop := digit ch < 16

instance (ch : UInt8) : Decidable (IsHex ch) := inferInstanceAs (Decidable (digit ch < 16))

/-- What is behind the signs begins with a digit. -/
def HasDigits (psz : List UInt8) : Prop := IsHex (charAt (skipSigns true psz).2 0)

instance (psz : List UInt8) : Decidable (HasDigits psz) :=
  inferInstanceAs (Decidable (IsHex _))

theorem interpret_length_le (uBase : Nat) (u64 : UInt64) (tooBig : Bool) (psz : List UInt8) :
    (interpret uBase u64 tooBig psz).2.2.length ≤ psz.length := by
  induction psz generalizing u64 tooBig with
  | nil => exact Nat.le_refl _
  | cons uch psz ih =>
    unfold interpret
    split
    · exact Nat.le_refl _
    · exact Nat.le_trans (ih _ _) (Nat.le_succ _)

/-- No digit is consumed just if the text does not begin with one. -/
theorem interpret_length_eq (u64 : UInt64) (tooBig : Bool) (psz : List UInt8) :
    (interpret 16 u64 tooBig psz).2.2.length = psz.length ↔ ¬ IsHex (charAt psz 0) := by
  cases psz with
  | nil => simp [interpret, IsHex, charAt]; decide
  | cons uch psz =>
    have head : charAt (uch :: psz) 0 = uch := rfl
    unfold interpret
    rw [head, IsHex]
    split
    · simpa using ‹16 ≤ digit uch›
    · have short := interpret_length_le 16 (u64 * UInt64.ofNat 16 + UInt64.ofNat (digit uch))
        (tooBig || u64 > u64 * UInt64.ofNat 16 + UInt64.ofNat (digit uch) ||
          u64 >>> shifts.getD 16 0 ≠ 0) psz
      simp only [List.length_cons]
      constructor
      · intro same
        omega
      · intro other
        omega

/-- The signs are not digits, and nothing but a digit follows a prefix. -/
theorem skipPrefix_digit (psz : List UInt8) : (skipPrefix 16 psz).1 = 16 ∧
      (IsHex (charAt (skipPrefix 16 psz).2 0) ↔ IsHex (charAt psz 0)) := by
  unfold skipPrefix
  rw [if_neg (by decide)]
  split
  · rename_i pre
    have ⟨zero, _, behind⟩ : charAt psz 0 = chZero ∧
        (charAt psz 1 = 0x78 ∨ charAt psz 1 = 0x58) ∧ digit (charAt psz 2) < 16 := by
      simpa [hasHexPrefix] using pre.2
    have next : charAt (psz.drop 2) 0 = charAt psz 2 := by simp [charAt]
    refine ⟨rfl, ?_⟩
    simp only [next, zero]
    exact ⟨fun _ => by decide, fun _ => behind⟩
  · exact ⟨rfl, Iff.rfl⟩

/-- Just a text without digits is refused. -/
theorem rtStrToUInt8Ex_isSuccess (psz : List UInt8) :
    (rtStrToUInt8Ex psz 16).1.isSuccess = true ↔ HasDigits psz := by
  obtain ⟨base, digits⟩ := skipPrefix_digit (skipSigns true psz).2
  have consumed := interpret_length_eq 0 false (skipPrefix 16 (skipSigns true psz).2).2
  rw [HasDigits, ← digits]
  simp only [rtStrToUInt8Ex, rtStrToUInt64Ex, base]
  by_cases hex : IsHex (charAt (skipPrefix 16 (skipSigns true psz).2).2 0)
  · have some : (interpret 16 0 false (skipPrefix 16 (skipSigns true psz).2).2).2.2.length ≠
        (skipPrefix 16 (skipSigns true psz).2).2.length := fun h => consumed.mp h hex
    simp only [if_neg some, hex, iff_true]
    unfold trailing
    split_ifs <;> rfl
  · simp [consumed.mpr hex, hex, Status.isSuccess]

theorem skipSigns_hex {c0 : UInt8} (hex : IsHex c0) (psz : List UInt8) :
    skipSigns true (c0 :: psz) = (true, c0 :: psz) := by
  have plus : c0 ≠ chPlus := fun h => absurd (h ▸ hex) (by decide)
  have minus : c0 ≠ chMinus := fun h => absurd (h ▸ hex) (by decide)
  rw [skipSigns, if_neg plus, if_neg minus]

theorem rtStrToUInt8Ex_digits {c0 c1 : UInt8} (hex0 : IsHex c0) (hex1 : IsHex c1) :
    (rtStrToUInt8Ex [c0, c1] 16).2 = 16 * UInt8.ofNat (digit c0) + UInt8.ofNat (digit c1) := by
  have noPrefix : skipPrefix 16 [c0, c1] = (16, [c0, c1]) := by
    have behind : ¬ digit 0 < 16 := by decide
    simp [skipPrefix, hasHexPrefix, charAt, behind]
  have first : ¬ 16 ≤ digit c0 := by simpa [IsHex] using hex0
  have second : ¬ 16 ≤ digit c1 := by simpa [IsHex] using hex1
  simp only [rtStrToUInt8Ex, rtStrToUInt64Ex, skipSigns_hex hex0, noPrefix, interpret, if_neg first,
    if_neg second, if_true]
  apply UInt8.toNat_inj.mp
  simp
  omega

end VBox.Runtime.StrToNum
