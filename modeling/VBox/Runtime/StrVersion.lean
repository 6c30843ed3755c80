import Mathlib.Algebra.Group.Int.Defs
import Mathlib.Algebra.Group.Nat.Defs

/-!
Comparing version strings.

A string is the list of its characters up to the terminator. How `RTStrNICmp` lower-cases a
character is a parameter.
-/

namespace VBox.Runtime.StrVersion

/-! ### Characters and numbers -/

/-- `RT_C_IS_DIGIT`. -/
def isDigit (ch : UInt8) : Bool := 0x30 ≤ ch && ch ≤ 0x39

/-- `RT_C_IS_PUNCT`. -/
def isPunct (ch : UInt8) : Bool :=
  ch - 0x21 < 15 || ch - 0x2a < 6 || ch - 0x3a < 7 || ch - 0x5b < 6 || ch - 0x7b < 4

/-- `RTSTRVER_IS_PUNCTUACTION`. -/
def isPunctuation (ch : UInt8) : Bool := ch == 0x5f || ch == 0x2d || ch == 0x2b || isPunct ch

/-- A round of the loop of `RTStrToInt64Ex` in base 10: the value, and whether it is known to be too
big. The check is approximate. -/
def strToInt64Step (s : Int × Bool) (ch : UInt8) : Int × Bool :=
  let i64 := Int.bmod (s.1 * 10 + (ch.toNat - 0x30 : Nat)) (2 ^ 64)
  (i64, s.2 || s.1 > i64 || s.1 / 2 ^ 61 != 0)

/-- `RTStrToInt32Ex` on digits, with no value for `VWRN_NUMBER_TOO_BIG`. -/
def rtStrToInt32Ex (digits : List UInt8) : Option Int :=
  let (i64, tooBig) := digits.foldl strToInt64Step (0, false)
  if tooBig ∨ i64 < -2 ^ 31 ∨ 2 ^ 31 ≤ i64 then none else some i64

/-! ### Blocks -/

/-- A block: whether it is numeric, its value then, and its characters. -/
structure Block where
  fNumeric : Bool
  iVal : Int
  text : List UInt8
  deriving DecidableEq

/-- `s_aTerms`. -/
def aTerms : List (List UInt8 × Int) :=
  [([0x52, 0x43], -100000),
    ([0x50, 0x52, 0x45], -200000),
    ([0x47, 0x41, 0x4d, 0x4d, 0x41], -300000),
    ([0x42, 0x45, 0x54, 0x41], -400000),
    ([0x41, 0x4c, 0x50, 0x48, 0x41], -500000)]

/-- Skip trailing punctuation. -/
def skipPunctuation : List UInt8 → List UInt8
  | [] => []
  | ch :: psz => if isPunctuation ch then psz else ch :: psz

/-- The string goes on with a digit. -/
def atDigit : List UInt8 → Bool
  | [] => false
  | ch :: _ => isDigit ch

/-- The end of a text, with the special case for SVN revision numbers. -/
def splitText (ch : UInt8) (psz : List UInt8) : List UInt8 × List UInt8 :=
  let goesOn := fun ch => !isDigit ch && !isPunctuation ch
  let text := ch :: psz.takeWhile goesOn
  let behind := psz.dropWhile goesOn
  if 1 < text.length ∧ text.getLast? = some 0x72 ∧ atDigit behind then
    (text.dropLast, 0x72 :: behind)
  else (text, behind)

/-- A pre-release term, with the number behind it if there is one. -/
def preRelease (iVal : Int) (text psz : List UInt8) : Block × List UInt8 :=
  match if atDigit psz then rtStrToInt32Ex (psz.takeWhile isDigit) else none with
  | some number =>
    if number ≠ 0 then
      (⟨true, iVal + (number - 1), text ++ psz.takeWhile isDigit⟩, psz.dropWhile isDigit)
    else (⟨true, iVal, text⟩, psz)
  | none => (⟨true, iVal, text⟩, psz)

/-- `rtStrVersionParseBlock`, before the trailing punctuation. -/
def parseBlock : List UInt8 → Block × List UInt8
  | [] => (⟨false, 0, []⟩, [])
  | ch :: psz =>
    if isDigit ch then
      let digits := ch :: psz.takeWhile isDigit
      match rtStrToInt32Ex digits with
      | some iVal => (⟨true, iVal, digits⟩, psz.dropWhile isDigit)
      | none => (⟨false, 0, digits⟩, psz.dropWhile isDigit)
    else
      let (text, behind) := splitText ch psz
      match aTerms.find? (·.1 == text) with
      | some term => preRelease term.2 text behind
      | none => (⟨false, 0, text⟩, behind)

/-- `rtStrVersionParseBlock`. -/
def rtStrVersionParseBlock (ppszVer : List UInt8) : Block × List UInt8 :=
  ((parseBlock ppszVer).1, skipPunctuation (parseBlock ppszVer).2)

/-! ### Comparisons -/

/-- `RTStrNICmp`. -/
def rtStrNICmp (lower : UInt8 → Nat) : Nat → List UInt8 → List UInt8 → Int
  | cchMax + 1, ch1 :: psz1, ch2 :: psz2 =>
    if lower ch1 ≠ lower ch2 then (lower ch1 : Int) - lower ch2
    else rtStrNICmp lower cchMax psz1 psz2
  | _, _, _ => 0

/-- The comparison of two blocks as texts. -/
def compareTexts (lower : UInt8 → Nat) (text1 text2 : List UInt8) : Int :=
  let iDiff := rtStrNICmp lower (min text1.length text2.length) text1 text2
  let iDiff :=
    if iDiff = 0 ∧ text1.length ≠ text2.length then
      if text1.length < text2.length then -1 else 1
    else iDiff
  if iDiff ≠ 0 then if iDiff < 0 then -1 else 1 else 0

/-- A round of `RTStrVersionCompare`: what it returns, or 0 to go on. -/
def compareBlocks (lower : UInt8 → Nat) (block1 block2 : Block) : Int :=
  if block1.fNumeric ∧ block2.fNumeric then
    if block1.iVal ≠ block2.iVal then if block1.iVal < block2.iVal then -1 else 1 else 0
  else if block1.fNumeric ≠ block2.fNumeric ∧
      (if block1.fNumeric then block1.iVal = 0 ∧ block2.text.length = 0
        else block2.iVal = 0 ∧ block1.text.length = 0) then 0
  else if block1.fNumeric ≠ block2.fNumeric ∧
      (if block1.fNumeric then block1.iVal else block2.iVal) < 0 then
    if block1.fNumeric then -1 else 1
  else compareTexts lower block1.text block2.text

theorem length_skipPunctuation_le (psz : List UInt8) :
    (skipPunctuation psz).length ≤ psz.length := by
  cases psz with
  | nil => exact Nat.le_refl 0
  | cons ch psz =>
    rw [skipPunctuation]
    split
    · exact Nat.le_succ _
    · exact Nat.le_refl _

theorem length_splitText (ch : UInt8) (psz : List UInt8) :
    (splitText ch psz).2.length < psz.length + 1 := by
  have whole := congrArg List.length
    (@List.takeWhile_append_dropWhile _ (fun ch => !isDigit ch && !isPunctuation ch) psz)
  rw [List.length_append] at whole
  unfold splitText
  simp only
  split
  case isTrue special =>
    have long := special.1
    rw [List.length_cons] at long ⊢
    omega
  case isFalse =>
    show (psz.dropWhile _).length < _
    omega

theorem length_preRelease_le (iVal : Int) (text psz : List UInt8) :
    (preRelease iVal text psz).2.length ≤ psz.length := by
  unfold preRelease
  split
  · split
    · exact (List.dropWhile_suffix _).length_le
    · exact Nat.le_refl _
  · exact Nat.le_refl _

/-- A block takes something off the string. -/
theorem length_parseBlock_lt {psz : List UInt8} (some : psz ≠ []) :
    (rtStrVersionParseBlock psz).2.length < psz.length := by
  refine Nat.lt_of_le_of_lt (length_skipPunctuation_le _) ?_
  cases psz with
  | nil => exact absurd rfl some
  | cons ch psz =>
    have digits := (List.dropWhile_suffix (l := psz) isDigit).length_le
    have split := length_splitText ch psz
    rw [parseBlock, List.length_cons]
    by_cases digit : isDigit ch = true
    · rw [if_pos digit]
      simp only
      split <;> exact Nat.lt_succ_of_le digits
    · rw [if_neg digit]
      simp only
      split
      · exact Nat.lt_of_le_of_lt (length_preRelease_le _ _ _) split
      · exact split

theorem length_parseBlock_le (psz : List UInt8) :
    (rtStrVersionParseBlock psz).2.length ≤ psz.length := by
  cases psz with
  | nil => exact Nat.le_refl 0
  | cons ch psz => exact Nat.le_of_lt (length_parseBlock_lt (List.cons_ne_nil ch psz))

/-- `RTStrVersionCompare`. -/
def rtStrVersionCompare (lower : UInt8 → Nat) (pszVer1 pszVer2 : List UInt8) : Int :=
  if pszVer1 = [] ∧ pszVer2 = [] then 0
  else
    let iDiff := compareBlocks lower (rtStrVersionParseBlock pszVer1).1
      (rtStrVersionParseBlock pszVer2).1
    if iDiff ≠ 0 then iDiff
    else
      rtStrVersionCompare lower (rtStrVersionParseBlock pszVer1).2
        (rtStrVersionParseBlock pszVer2).2
termination_by pszVer1.length + pszVer2.length
decreasing_by
  rename_i some _
  rcases Classical.not_and_iff_not_or_not.mp some with first | second
  · exact Nat.add_lt_add_of_lt_of_le (length_parseBlock_lt first) (length_parseBlock_le _)
  · exact Nat.add_lt_add_of_le_of_lt (length_parseBlock_le _) (length_parseBlock_lt second)

end VBox.Runtime.StrVersion
