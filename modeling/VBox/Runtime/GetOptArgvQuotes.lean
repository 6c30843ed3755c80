import VBox.Runtime.GetOptArgv

/-!
Command lines in a shell.

A shell reads a command line character by character and knows whether it is between quotes. The
characters that stem from an argument are marked; one that means something to the shell is to be
between quotes that take its meaning away.
-/

namespace VBox.Runtime.GetOptArgv

open List

/-! ### The shell -/

/-- Where a shell is: within no quotes or in some, and possibly behind a backslash. -/
inductive Shell where
  | plain
  | escaped
  | single
  | double
  | doubleEscaped
  deriving DecidableEq

def chDollar : UInt8 := 0x24
def chBacktick : UInt8 := 0x60

namespace Shell

def step : Shell → UInt8 → Shell
  | plain, ch =>
    if ch = chSingle then single
    else if ch = chDouble then double
    else if ch = chBackslash then escaped
    else plain
  | escaped, _ => plain
  | single, ch => if ch = chSingle then plain else single
  | double, ch =>
    if ch = chDouble then plain
    else if ch = chBackslash then doubleEscaped
    else double
  | doubleEscaped, _ => double

/-- A character is between quotes and has no meaning there. -/
def Encloses : Shell → UInt8 → Prop
  | plain, _ | escaped, _ => False
  | single, ch => ch ≠ chSingle
  | double, ch | doubleEscaped, ch =>
    ch ≠ chDollar ∧ ch ≠ chBacktick ∧ ch ≠ chBackslash ∧ ch ≠ chDouble

end Shell

/-- The characters that are listed for the Bourne shell: control characters, space and
punctuation. -/
def Special (ch : UInt8) : Prop :=
  (0x01 ≤ ch ∧ ch ≤ 0x1f) ∨
    ch ∈ [chSpace, 0x21, chDouble, chDollar, 0x26, 0x28, 0x29, 0x2a, 0x3b, 0x3c, 0x3e, 0x3f, 0x5b,
      chSingle, chBackslash, chBacktick, 0x7c, 0x7e]

instance (ch : UInt8) : Decidable (Special ch) := inferInstanceAs (Decidable (_ ∨ _))

/-- The listed characters that are not in the table. -/
def Missed (ch : UInt8) : Prop :=
  (0x14 ≤ ch ∧ ch ≤ 0x1f) ∨ ch ∈ [0x5b, chBackslash, chBacktick, 0x7c, 0x7e]

instance (ch : UInt8) : Decidable (Missed ch) := inferInstanceAs (Decidable (_ ∨ _))

/-! ### Marked characters -/

/-- `putBourneSh`, with the characters that stem from the argument marked. -/
def markBourneSh : List UInt8 → List (UInt8 × Bool)
  | [] => []
  | ch :: pszArg =>
    (if ch = chSingle then
        [(chSingle, false), (chDouble, false), (ch, true), (chDouble, false), (chSingle, false)]
      else [(ch, true)]) ++ markBourneSh pszArg

/-- `putArg` for the Bourne shell. -/
def markArg (pszArg : List UInt8) : List (UInt8 × Bool) :=
  if !rtGetOpArgvRequiresQuoting pszArg quoteBourneSh then pszArg.map (·, true)
  else [(chSingle, false)] ++ markBourneSh pszArg ++ [(chSingle, false)]

/-- `putMore` for the Bourne shell. -/
def markMore : List (List UInt8) → List (UInt8 × Bool)
  | [] => []
  | pszArg :: papszArgv => [(chSpace, false)] ++ markArg pszArg ++ markMore papszArgv

/-- `putArgs` for the Bourne shell. -/
def markArgs : List (List UInt8) → List (UInt8 × Bool)
  | [] => []
  | pszArg :: papszArgv => markArg pszArg ++ markMore papszArgv

/-- The special characters that stem from an argument are between quotes, and all quotes are
closed in the end. -/
def Safe : Shell → List (UInt8 × Bool) → Prop
  | shell, [] => shell = .plain
  | shell, (ch, fromArg) :: line =>
    (fromArg = true → Special ch → shell.Encloses ch) ∧ Safe (shell.step ch) line

/-! ### One argument -/

/-- Between single quotes, an argument is safe. -/
theorem safe_single (pszArg : List UInt8) (line : List (UInt8 × Bool)) :
    Safe .single (markBourneSh pszArg ++ line) ↔ Safe .single line := by
  induction pszArg with
  | nil => rfl
  | cons ch pszArg ih =>
    by_cases single : ch = chSingle
    · subst single
      have enclosed : Shell.double.Encloses chSingle := by
        unfold Shell.Encloses
        decide
      rw [← ih, markBourneSh, if_pos rfl]
      simp only [cons_append, nil_append, Safe]
      -- The quote is closed, the character is enclosed by double ones, and a quote is opened again.
      rw [show Shell.single.step chSingle = .plain from rfl,
        show Shell.plain.step chDouble = .double from rfl,
        show Shell.double.step chSingle = .double from rfl,
        show Shell.double.step chDouble = .plain from rfl,
        show Shell.plain.step chSingle = .single from rfl]
      simp [enclosed]
    · rw [← ih]
      simp [markBourneSh, Safe, Shell.step, Shell.Encloses, single]

/-- A character that is not listed leaves a shell where it is. -/
theorem step_plain {ch : UInt8} (ordinary : ¬ Special ch) : Shell.plain.step ch = .plain := by
  have single : ch ≠ chSingle := fun h => ordinary (h ▸ by decide)
  have double : ch ≠ chDouble := fun h => ordinary (h ▸ by decide)
  have backslash : ch ≠ chBackslash := fun h => ordinary (h ▸ by decide)
  rw [Shell.step, if_neg single, if_neg double, if_neg backslash]

/-- Without quotes, an argument is safe just if there is nothing special in it. -/
theorem safe_unquoted (pszArg : List UInt8) (line : List (UInt8 × Bool)) :
    Safe .plain (pszArg.map (·, true) ++ line) ↔
      (∀ ch ∈ pszArg, ¬ Special ch) ∧ Safe .plain line := by
  induction pszArg with
  | nil => simp
  | cons ch pszArg ih =>
    rw [map_cons, cons_append, Safe, forall_mem_cons]
    by_cases special : Special ch
    · simp [special, Shell.Encloses]
    · rw [step_plain special, ih]
      simp [special]

/-- Just the missed characters are special and not in the table. -/
theorem missed_iff (ch : UInt8) : Missed ch ↔ Special ch ∧ inTable quoteBourneSh ch = false := by
  have all : ∀ n : Fin 256, Missed (UInt8.ofNat n) ↔
      Special (UInt8.ofNat n) ∧ inTable quoteBourneSh (UInt8.ofNat n) = false := by
    decide +kernel
  simpa using all ⟨ch.toNat, UInt8.toNat_lt ch⟩

/-- An argument is safe just if it is quoted or has no missed character. -/
theorem safe_markArg (pszArg : List UInt8) (line : List (UInt8 × Bool)) :
    Safe .plain (markArg pszArg ++ line) ↔
      ((∃ ch ∈ pszArg, Missed ch) → rtGetOpArgvRequiresQuoting pszArg quoteBourneSh = true) ∧
        Safe .plain line := by
  by_cases quoting : rtGetOpArgvRequiresQuoting pszArg quoteBourneSh = true
  · rw [markArg, if_neg (by simp [quoting])]
    simp only [append_assoc, cons_append, nil_append, Safe, quoting]
    rw [show Shell.plain.step chSingle = .single from rfl, safe_single, Safe,
      show Shell.single.step chSingle = .plain from rfl]
    simp
  · rw [markArg, if_pos (by simp [quoting]), safe_unquoted]
    refine and_congr_left fun _ => ?_
    have none := any_eq_false.mp (Bool.eq_false_iff.mpr quoting)
    constructor
    · rintro ordinary ⟨ch, mem, missed⟩
      exact absurd ((missed_iff ch).mp missed).1 (ordinary ch mem)
    · intro quoted ch mem special
      exact quoting (quoted ⟨ch, mem, (missed_iff ch).mpr ⟨special, by simpa using none ch mem⟩⟩)

/-! ### Command lines -/

theorem safe_markMore (papszArgv : List (List UInt8)) : Safe .plain (markMore papszArgv) ↔
      ∀ pszArg ∈ papszArgv, (∃ ch ∈ pszArg, Missed ch) →
        rtGetOpArgvRequiresQuoting pszArg quoteBourneSh = true := by
  induction papszArgv with
  | nil => simp [markMore, Safe]
  | cons pszArg papszArgv ih =>
    rw [markMore, append_assoc, cons_append, nil_append, Safe,
      show Shell.plain.step chSpace = .plain from rfl, safe_markArg, ih, forall_mem_cons]
    simp

end VBox.Runtime.GetOptArgv
