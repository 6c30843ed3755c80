import VBox.Runtime.StrVersion
import Mathlib.Data.Sum.Order
import Mathlib.Data.List.Lex
import Mathlib.Order.Lattice.Nat
import Mathlib.Algebra.Order.Group.Int

/-!
When the comparison of version strings is an order.

Blocks are compared by one of several rules, chosen from both. A number is below every text that
starts above the digits; a number beyond 32 bits is a text as well, and then two numbers are
compared in one way and each with it in another. Among regular blocks every rule is that of one
linear order, `key`.
-/

namespace VBox.Runtime.StrVersion

open List

/-! ### Signs of comparisons -/

section Sign

variable {α : Type} [LinearOrder α] {x y z : α}

/-- The sign of a comparison. -/
def sign (x y : α) : Int := if x < y then -1 else if y < x then 1 else 0

theorem sign_eq_neg (x y : α) : sign x y = -sign y x := by
  unfold sign
  rcases lt_trichotomy x y with below | same | beyond
  · rw [if_pos below, if_neg (lt_asymm below), if_pos below]
  · rw [same, if_neg (lt_irrefl y), if_neg (lt_irrefl y)]
    rfl
  · rw [if_neg (lt_asymm beyond), if_pos beyond, if_pos beyond]
    rfl

theorem sign_eq_zero_iff : sign x y = 0 ↔ x = y := by
  unfold sign
  rcases lt_trichotomy x y with below | same | beyond
  · rw [if_pos below]
    exact ⟨fun zero => absurd zero (by decide), fun same => absurd below (same ▸ lt_irrefl x)⟩
  · rw [same, if_neg (lt_irrefl y), if_neg (lt_irrefl y)]
    exact ⟨fun _ => rfl, fun _ => rfl⟩
  · rw [if_neg (lt_asymm beyond), if_pos beyond]
    exact ⟨fun zero => absurd zero (by decide), fun same => absurd beyond (same ▸ lt_irrefl x)⟩

theorem sign_of_lt (below : x < y) : sign x y = -1 := if_pos below

theorem sign_of_gt (beyond : y < x) : sign x y = 1 := by
  rw [sign, if_neg (lt_asymm beyond), if_pos beyond]

theorem sign_le_zero_iff : sign x y ≤ 0 ↔ x ≤ y := by
  unfold sign
  rcases lt_trichotomy x y with below | same | beyond
  · rw [if_pos below]
    exact ⟨fun _ => le_of_lt below, fun _ => by decide⟩
  · rw [same, if_neg (lt_irrefl y), if_neg (lt_irrefl y)]
    exact ⟨fun _ => le_refl y, fun _ => le_refl 0⟩
  · rw [if_neg (lt_asymm beyond), if_pos beyond]
    exact ⟨fun one => absurd one (by decide), fun le => absurd le (not_le_of_gt beyond)⟩

end Sign

/-! ### Texts -/

section Texts

variable {lower : UInt8 → Nat} {text1 text2 : List UInt8}

/-- Texts are compared as lists of lower-cased characters. -/
theorem compareTexts_eq (lower : UInt8 → Nat) (text1 text2 : List UInt8) :
    compareTexts lower text1 text2 = sign (text1.map lower) (text2.map lower) := by
  induction text1 generalizing text2 with
  | nil =>
    cases text2 with
    | nil => rfl
    | cons ch2 text2 => exact (sign_of_lt (nil_lt_cons _ _)).symm
  | cons ch1 text1 ih =>
    cases text2 with
    | nil => exact (sign_of_gt (nil_lt_cons _ _)).symm
    | cons ch2 text2 =>
      have shorter : min (ch1 :: text1).length (ch2 :: text2).length =
          min text1.length text2.length + 1 := Nat.succ_min_succ _ _
      by_cases same : lower ch1 = lower ch2
      · have heads : sign ((ch1 :: text1).map lower) ((ch2 :: text2).map lower) =
            sign (text1.map lower) (text2.map lower) := by
          rw [map_cons, map_cons, same]
          rcases lt_trichotomy (text1.map lower) (text2.map lower) with below | equal | beyond
          · rw [sign_of_lt below, sign_of_lt]
            exact cons_lt_cons_iff.mpr (.inr ⟨rfl, below⟩)
          · rw [equal, sign_eq_zero_iff.mpr rfl, sign_eq_zero_iff.mpr rfl]
          · rw [sign_of_gt beyond, sign_of_gt]
            exact cons_lt_cons_iff.mpr (.inr ⟨rfl, beyond⟩)
        have lengths : ((ch1 :: text1).length ≠ (ch2 :: text2).length) =
            (text1.length ≠ text2.length) := by
          simp only [length_cons, ne_eq, Nat.add_right_cancel_iff]
        have less : ((ch1 :: text1).length < (ch2 :: text2).length) =
            (text1.length < text2.length) := by
          simp only [length_cons, Nat.add_lt_add_iff_right]
        have goesOn : rtStrNICmp lower (min text1.length text2.length + 1) (ch1 :: text1)
            (ch2 :: text2) = rtStrNICmp lower (min text1.length text2.length) text1 text2 := by
          rw [rtStrNICmp, if_neg (not_not.mpr same)]
        rw [heads, ← ih text2]
        unfold compareTexts
        simp only [shorter, goesOn, lengths, less]
      · have decides : rtStrNICmp lower (min text1.length text2.length + 1) (ch1 :: text1)
            (ch2 :: text2) = (lower ch1 : Int) - lower ch2 := by
          rw [rtStrNICmp, if_pos same]
        have differ : (lower ch1 : Int) - lower ch2 ≠ 0 := by omega
        unfold compareTexts
        simp only [shorter, decides, differ, false_and, if_false, ne_eq, not_false_iff, if_true]
        rcases Nat.lt_or_gt_of_ne same with below | beyond
        · rw [if_pos (by omega), sign_of_lt]
          exact cons_lt_cons_iff.mpr (.inl below)
        · rw [if_neg (by omega), sign_of_gt]
          exact cons_lt_cons_iff.mpr (.inl beyond)

end Texts

/-! ### Blocks -/

section Blocks

variable {lower : UInt8 → Nat} {block1 block2 : Block}

theorem compareValues_eq (iVal1 iVal2 : Int) :
    (if iVal1 ≠ iVal2 then if iVal1 < iVal2 then (-1 : Int) else 1 else 0) = sign iVal1 iVal2 := by
  rcases lt_trichotomy iVal1 iVal2 with below | same | beyond
  · rw [if_pos (ne_of_lt below), if_pos below, sign_of_lt below]
  · rw [if_neg (not_not.mpr same), sign_eq_zero_iff.mpr same]
  · rw [if_pos (ne_of_gt beyond), if_neg (lt_asymm beyond), sign_of_gt beyond]

theorem compareBlocks_eq_neg (lower : UInt8 → Nat) (block1 block2 : Block) :
    compareBlocks lower block1 block2 = -compareBlocks lower block2 block1 := by
  have texts : compareTexts lower block1.text block2.text =
      -compareTexts lower block2.text block1.text := by
    rw [compareTexts_eq, compareTexts_eq]
    exact sign_eq_neg _ _
  have values := sign_eq_neg block1.iVal block2.iVal
  rw [← compareValues_eq, ← compareValues_eq] at values
  unfold compareBlocks
  cases block1.fNumeric <;> cases block2.fNumeric <;>
    simp only [Bool.false_eq_true, and_self, and_false, false_and, if_false, if_true, ne_eq,
      not_true_eq_false, not_false_eq_true, true_and, reduceCtorEq]
  · exact texts
  · split
    · rfl
    · split
      · rfl
      · exact texts
  · split
    · rfl
    · split
      · rfl
      · exact texts
  · exact values

/-- A block among which the comparison is an order: a number, a pre-release term whose value is
below zero, or a text that starts above the digits. -/
def Regular (lower : UInt8 → Nat) (block : Block) : Prop :=
  if block.fNumeric then block.iVal < 0 ∨ ∃ ch ∈ block.text.head?, isDigit ch
  else block.text = [] ∨ ∃ ch ∈ block.text.head?, ∀ digit, isDigit digit → lower digit < lower ch

/-- The place of a block: numbers by value, with a missing block for 0, and texts above them. -/
def key (lower : UInt8 → Nat) (block : Block) : Int ⊕ₗ List Nat :=
  if block.fNumeric then Sum.inlₗ block.iVal
  else if block.text = [] then Sum.inlₗ 0
  else Sum.inrₗ (block.text.map lower)

theorem sign_inl (a b : Int) : sign (Sum.inlₗ a : Int ⊕ₗ List Nat) (Sum.inlₗ b) = sign a b := by
  rcases lt_trichotomy a b with below | same | beyond
  · rw [sign_of_lt below, sign_of_lt (Sum.Lex.inl_lt_inl_iff.mpr below)]
  · rw [same, sign_eq_zero_iff.mpr rfl, sign_eq_zero_iff.mpr rfl]
  · rw [sign_of_gt beyond, sign_of_gt (Sum.Lex.inl_lt_inl_iff.mpr beyond)]

theorem sign_inr (a b : List Nat) :
    sign (Sum.inrₗ a : Int ⊕ₗ List Nat) (Sum.inrₗ b) = sign a b := by
  rcases lt_trichotomy a b with below | same | beyond
  · rw [sign_of_lt below, sign_of_lt (Sum.Lex.inr_lt_inr_iff.mpr below)]
  · rw [same, sign_eq_zero_iff.mpr rfl, sign_eq_zero_iff.mpr rfl]
  · rw [sign_of_gt beyond, sign_of_gt (Sum.Lex.inr_lt_inr_iff.mpr beyond)]

/-- A number and a text. -/
theorem compareBlocks_mixed (regular1 : Regular lower block1) (regular2 : Regular lower block2)
    (numeric : block1.fNumeric = true) (text : block2.fNumeric = false) :
    compareBlocks lower block1 block2 = sign (key lower block1) (key lower block2) := by
  unfold compareBlocks key
  simp only [numeric, text, Bool.false_eq_true, and_false, if_false, if_true, ne_eq, reduceCtorEq,
    not_false_eq_true, true_and]
  unfold Regular at regular1 regular2
  rw [if_pos numeric] at regular1
  rw [text, if_neg Bool.false_ne_true] at regular2
  by_cases missing : block2.text = []
  · rw [missing, length_nil, if_pos rfl, sign_inl]
    rcases lt_trichotomy block1.iVal 0 with below | zero | beyond
    · rw [if_neg (fun both => absurd both.1 (ne_of_lt below)), if_pos below, sign_of_lt below]
    · rw [if_pos ⟨zero, rfl⟩, sign_eq_zero_iff.mpr zero]
    · rw [if_neg (fun both => absurd both.1 (ne_of_gt beyond)), if_neg (lt_asymm beyond),
        sign_of_gt beyond, compareTexts_eq]
      obtain ⟨ch, head, _⟩ := regular1.resolve_left (lt_asymm beyond)
      obtain ⟨rest, split⟩ := head?_eq_some_iff.mp head
      rw [split]
      exact sign_of_gt (nil_lt_cons _ _)
  · have some : block2.text.length ≠ 0 := fun zero => missing (length_eq_zero_iff.mp zero)
    rw [if_neg missing, if_neg (fun both => absurd both.2 some),
      sign_of_lt (Sum.Lex.inl_lt_inr _ _)]
    split
    case isTrue => rfl
    case isFalse notBelow =>
      obtain ⟨ch, head, digit⟩ := regular1.resolve_left notBelow
      obtain ⟨rest, split⟩ := head?_eq_some_iff.mp head
      obtain ⟨ch', head', larger⟩ := regular2.resolve_left missing
      obtain ⟨rest', split'⟩ := head?_eq_some_iff.mp head'
      rw [compareTexts_eq, split, split']
      exact sign_of_lt (cons_lt_cons_iff.mpr (.inl (larger ch digit)))

/-- Regular blocks are compared by their places. -/
theorem compareBlocks_key (regular1 : Regular lower block1) (regular2 : Regular lower block2) :
    compareBlocks lower block1 block2 = sign (key lower block1) (key lower block2) := by
  cases numeric1 : block1.fNumeric with
  | true =>
    cases numeric2 : block2.fNumeric with
    | true =>
      unfold compareBlocks key
      rw [if_pos ⟨numeric1, numeric2⟩, if_pos numeric1, if_pos numeric2, sign_inl, compareValues_eq]
    | false => exact compareBlocks_mixed regular1 regular2 numeric1 numeric2
  | false =>
    cases numeric2 : block2.fNumeric with
    | true =>
      rw [compareBlocks_eq_neg, sign_eq_neg (key lower block1),
        compareBlocks_mixed regular2 regular1 numeric2 numeric1]
    | false =>
      unfold compareBlocks key
      simp only [numeric1, numeric2, Bool.false_eq_true, and_self, if_false, ne_eq,
        not_true_eq_false, false_and]
      rw [compareTexts_eq]
      cases block1.text with
      | nil =>
        cases block2.text with
        | nil => exact (sign_eq_zero_iff.mpr rfl).trans (sign_eq_zero_iff.mpr rfl).symm
        | cons ch text =>
          rw [if_pos rfl, if_neg (cons_ne_nil _ _)]
          exact (sign_of_lt (nil_lt_cons _ _)).trans (sign_of_lt (Sum.Lex.inl_lt_inr _ _)).symm
      | cons ch text =>
        cases block2.text with
        | nil =>
          rw [if_pos rfl, if_neg (cons_ne_nil _ _)]
          exact (sign_of_gt (nil_lt_cons _ _)).trans (sign_of_gt (Sum.Lex.inl_lt_inr _ _)).symm
        | cons ch' text' =>
          rw [if_neg (cons_ne_nil _ _), if_neg (cons_ne_nil _ _), sign_inr]

end Blocks

/-! ### Strings -/

section Strings

variable {lower : UInt8 → Nat}

/-- A round of the comparison; a string that has ended goes on with missing blocks. -/
theorem rtStrVersionCompare_eq (lower : UInt8 → Nat) (ver1 ver2 : List UInt8) :
    rtStrVersionCompare lower ver1 ver2 =
      if compareBlocks lower (rtStrVersionParseBlock ver1).1 (rtStrVersionParseBlock ver2).1 ≠ 0
      then compareBlocks lower (rtStrVersionParseBlock ver1).1 (rtStrVersionParseBlock ver2).1
      else rtStrVersionCompare lower (rtStrVersionParseBlock ver1).2
        (rtStrVersionParseBlock ver2).2 := by
  by_cases ends : ver1 = [] ∧ ver2 = []
  · obtain ⟨rfl, rfl⟩ := ends
    have nothing : rtStrVersionCompare lower [] [] = 0 := by
      rw [rtStrVersionCompare, if_pos ⟨rfl, rfl⟩]
    rw [nothing]
    exact nothing.symm
  · rw [rtStrVersionCompare, if_neg ends]

/-- The comparison the other way round. -/
theorem rtStrVersionCompare_eq_neg (lower : UInt8 → Nat) (ver1 ver2 : List UInt8) :
    rtStrVersionCompare lower ver1 ver2 = -rtStrVersionCompare lower ver2 ver1 := by
  induction ver1, ver2 using rtStrVersionCompare.induct lower with
  | case1 ver1 ver2 ends =>
    obtain ⟨rfl, rfl⟩ := ends
    rw [rtStrVersionCompare, if_pos ⟨rfl, rfl⟩]
    rfl
  | case2 ver1 ver2 some iDiff differ =>
    have back := compareBlocks_eq_neg lower (rtStrVersionParseBlock ver1).1
      (rtStrVersionParseBlock ver2).1
    have differ' : compareBlocks lower (rtStrVersionParseBlock ver2).1
        (rtStrVersionParseBlock ver1).1 ≠ 0 := fun zero =>
      differ (back.trans (by rw [zero]; rfl))
    rw [rtStrVersionCompare_eq lower ver1, rtStrVersionCompare_eq lower ver2, if_pos differ,
      if_pos differ', back]
  | case3 ver1 ver2 some iDiff same ih =>
    have back := compareBlocks_eq_neg lower (rtStrVersionParseBlock ver2).1
      (rtStrVersionParseBlock ver1).1
    have same' : ¬ compareBlocks lower (rtStrVersionParseBlock ver2).1
        (rtStrVersionParseBlock ver1).1 ≠ 0 := by
      rw [not_not, back]
      exact neg_eq_zero.mpr (not_not.mp same)
    rw [rtStrVersionCompare_eq lower ver1, rtStrVersionCompare_eq lower ver2, if_neg same,
      if_neg same', ih]

/-- The blocks of a string. -/
def blocks (ver : List UInt8) : List Block :=
  if ver = [] then []
  else (rtStrVersionParseBlock ver).1 :: blocks (rtStrVersionParseBlock ver).2
termination_by ver.length
decreasing_by exact length_parseBlock_lt ‹_›

/-- Every block of a string is regular. -/
def RegularString (lower : UInt8 → Nat) (ver : List UInt8) : Prop :=
  ∀ block ∈ blocks ver, Regular lower block

theorem RegularString.round {ver : List UInt8} (regular : RegularString lower ver) :
    Regular lower (rtStrVersionParseBlock ver).1 ∧
      RegularString lower (rtStrVersionParseBlock ver).2 := by
  by_cases ends : ver = []
  · subst ends
    exact ⟨.inl rfl, regular⟩
  · unfold RegularString at regular
    rw [blocks, if_neg ends] at regular
    exact forall_mem_cons.mp regular

/-- A round of the comparison of regular strings. -/
theorem rtStrVersionCompare_le_zero_iff {ver1 ver2 : List UInt8}
    (regular1 : RegularString lower ver1) (regular2 : RegularString lower ver2) :
    rtStrVersionCompare lower ver1 ver2 ≤ 0 ↔
      key lower (rtStrVersionParseBlock ver1).1 < key lower (rtStrVersionParseBlock ver2).1 ∨
      key lower (rtStrVersionParseBlock ver1).1 = key lower (rtStrVersionParseBlock ver2).1 ∧
        rtStrVersionCompare lower (rtStrVersionParseBlock ver1).2
          (rtStrVersionParseBlock ver2).2 ≤ 0 := by
  rw [rtStrVersionCompare_eq, compareBlocks_key regular1.round.1 regular2.round.1]
  by_cases same : key lower (rtStrVersionParseBlock ver1).1 =
      key lower (rtStrVersionParseBlock ver2).1
  · rw [if_neg (not_not.mpr (sign_eq_zero_iff.mpr same))]
    constructor
    · exact fun le => .inr ⟨same, le⟩
    · rintro (below | ⟨_, le⟩)
      · exact absurd same (ne_of_lt below)
      · exact le
  · rw [if_pos (fun zero => same (sign_eq_zero_iff.mp zero)), sign_le_zero_iff]
    constructor
    · exact fun le => .inl (lt_of_le_of_ne le same)
    · rintro (below | ⟨equal, _⟩)
      · exact le_of_lt below
      · exact absurd equal same

theorem rtStrVersionCompare_trans {ver1 ver2 ver3 : List UInt8}
    (regular1 : RegularString lower ver1) (regular2 : RegularString lower ver2)
    (regular3 : RegularString lower ver3) (first : rtStrVersionCompare lower ver1 ver2 ≤ 0)
    (second : rtStrVersionCompare lower ver2 ver3 ≤ 0) :
    rtStrVersionCompare lower ver1 ver3 ≤ 0 := by
  -- The two outer strings get shorter together, whatever the one between does.
  induction ver1, ver3 using rtStrVersionCompare.induct lower generalizing ver2 with
  | case1 ver1 ver3 ends =>
    obtain ⟨rfl, rfl⟩ := ends
    rw [rtStrVersionCompare, if_pos ⟨rfl, rfl⟩]
  | case2 ver1 ver3 some iDiff =>
    rename_i differ
    have differ : compareBlocks lower (rtStrVersionParseBlock ver1).1
      (rtStrVersionParseBlock ver3).1 ≠ 0 := differ
    rw [compareBlocks_key regular1.round.1 regular3.round.1] at differ
    rw [rtStrVersionCompare_le_zero_iff regular1 regular2] at first
    rw [rtStrVersionCompare_le_zero_iff regular2 regular3] at second
    rw [rtStrVersionCompare_le_zero_iff regular1 regular3]
    refine .inl (lt_of_le_of_ne ?_ fun same => differ (sign_eq_zero_iff.mpr same))
    have le1 := first.elim le_of_lt fun equal => le_of_eq equal.1
    exact le_trans le1 (second.elim le_of_lt fun equal => le_of_eq equal.1)
  | case3 ver1 ver3 some iDiff =>
    rename_i same ih
    have same : ¬ compareBlocks lower (rtStrVersionParseBlock ver1).1
      (rtStrVersionParseBlock ver3).1 ≠ 0 := same
    rw [compareBlocks_key regular1.round.1 regular3.round.1, not_not, sign_eq_zero_iff] at same
    rw [rtStrVersionCompare_le_zero_iff regular1 regular2] at first
    rw [rtStrVersionCompare_le_zero_iff regular2 regular3, ← same] at second
    rw [rtStrVersionCompare_le_zero_iff regular1 regular3]
    refine .inr ⟨same, ?_⟩
    rcases first with below | ⟨_, first⟩
    · rcases second with beyond | ⟨equal, _⟩
      · exact absurd beyond (lt_asymm below)
      · exact absurd equal.symm (ne_of_lt below)
    · rcases second with beyond | ⟨equal, second⟩
      · rename_i equal
        exact absurd equal (ne_of_gt beyond)
      · exact ih regular1.round.2 regular2.round.2 regular3.round.2 first second

/-- What an order of version strings should do. -/
structure Ordered (lower : UInt8 → Nat) (ver1 ver2 ver3 : List UInt8) : Prop where
  reflexive : rtStrVersionCompare lower ver1 ver1 = 0
  antisymmetric : rtStrVersionCompare lower ver1 ver2 = -rtStrVersionCompare lower ver2 ver1
  transitive : rtStrVersionCompare lower ver1 ver2 ≤ 0 → rtStrVersionCompare lower ver2 ver3 ≤ 0 →
    rtStrVersionCompare lower ver1 ver3 ≤ 0

theorem rtStrVersionCompare_self (lower : UInt8 → Nat) (ver : List UInt8) :
    rtStrVersionCompare lower ver ver = 0 := by
  have back := rtStrVersionCompare_eq_neg lower ver ver
  omega

end Strings

/-- ASCII lower-casing. -/
def asciiLower (ch : UInt8) : Nat := if 0x41 ≤ ch ∧ ch ≤ 0x5a then ch.toNat + 0x20 else ch.toNat

theorem asciiLower_digit {digit : UInt8} (isADigit : isDigit digit = true) :
    asciiLower digit ≤ 0x39 := by
  have small : digit.toNat ≤ 0x39 :=
    UInt8.le_iff_toNat_le.mp (of_decide_eq_true (Bool.and_eq_true_iff.mp isADigit).2)
  have notUpper : ¬ (0x41 ≤ digit ∧ digit ≤ 0x5a) := by
    intro upper
    have large : 0x41 ≤ digit.toNat := UInt8.le_iff_toNat_le.mp upper.1
    omega
  rw [asciiLower, if_neg notUpper]
  exact small

end VBox.Runtime.StrVersion
