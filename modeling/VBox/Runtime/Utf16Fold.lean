import VBox.Runtime.Utf16Recode

/-!
Folding the case of UTF-16 strings.

The cursor stays at a surrogate pair that is not folded, and a pair that is folded is written back
as it was.
-/

namespace VBox.Runtime.Utf16

section Fold

variable (one : UInt16 → Option UInt16) (fold : UInt32 → UInt32)

/-! ### The functions -/

/-- The loop over the units before the terminator. `one` is what a unit that begins no pair is
replaced by, if anything; otherwise the cursor is not advanced. -/
def foldLoop : Nat → List UInt16 → Option (List UInt16)
  | 0, _ => none
  | _ + 1, [] => some []
  | fuel + 1, wc :: pwc =>
    if wc = 0 then some (wc :: pwc)
    else if wc < 0xd800 ∨ 0xdc00 ≤ wc then
      match one wc with
      | some folded => (foldLoop fuel pwc).map (folded :: ·)
      | none => foldLoop fuel (wc :: pwc)
    else if IsLow (pwc.headD 0) then
      let uc := UInt32.ofNat (pairCp wc (pwc.headD 0))
      if uc ≠ fold uc ∧ 0x10000 ≤ fold uc then
        (foldLoop fuel (pwc.drop 1)).map fun rest =>
          (surrogates uc).1 :: (surrogates uc).2 :: rest
      else foldLoop fuel (wc :: pwc)
    else (foldLoop fuel pwc).map (wc :: ·)

/-- `RTUtf16ToLower`, where `fold` is `RTUniCpToLower`. -/
def rtUtf16ToLower (fuel : Nat) (pwsz : List UInt16) : Option (List UInt16) :=
  foldLoop (fun wc =>
    if fold wc.toUInt32 < 0x10000 then some (fold wc.toUInt32).toUInt16 else none) fold fuel pwsz

/-- `RTUtf16ToUpper`, where `fold` is `RTUniCpToUpper`. -/
def rtUtf16ToUpper (fuel : Nat) (pwsz : List UInt16) : Option (List UInt16) :=
  foldLoop (fun wc => some (fold wc.toUInt32).toUInt16) fold fuel pwsz

/-! ### What is asked for -/

/-- The first unit of a pair. -/
def IsHigh (wc : UInt16) : Prop := 0xd800 ≤ wc ∧ wc < 0xdc00

instance (wc : UInt16) : Decidable (IsHigh wc) := inferInstanceAs (Decidable (_ ∧ _))

/-- A unit outside a pair: no surrogate is a code point. -/
def unitFolded (wc : UInt16) : UInt16 :=
  if IsHigh wc ∨ IsLow wc ∨ 0x10000 ≤ fold wc.toUInt32 then wc else (fold wc.toUInt32).toUInt16

def pairFolded (wc wc2 : UInt16) : List UInt16 :=
  let uc := fold (UInt32.ofNat (pairCp wc wc2))
  if 0x10000 ≤ uc ∧ uc ≤ 0x10ffff then [(surrogates uc).1, (surrogates uc).2] else [wc, wc2]

/-- Each code point is replaced by its folded form if that needs as many units. -/
def folded : List UInt16 → List UInt16
  | [] => []
  | [wc] => [if wc = 0 then wc else unitFolded fold wc]
  | wc :: wc2 :: pwc =>
    if wc = 0 then wc :: wc2 :: pwc
    else if IsHigh wc ∧ IsLow wc2 then pairFolded fold wc wc2 ++ folded pwc
    else unitFolded fold wc :: folded (wc2 :: pwc)

/-- The loop ends and has folded everything. -/
def FoldsAll (loop : Nat → List UInt16 → Option (List UInt16)) (pwsz : List UInt16) : Prop :=
  ∃ fuel, loop fuel pwsz = some (folded fold pwsz)

/-- Before the terminator there is no pair with a folded form among the code points, or without
one, and each other unit is replaced as it should. -/
def Foldable : List UInt16 → Prop
  | [] => True
  | [wc] => wc = 0 ∨ IsHigh wc ∨ one wc = some (unitFolded fold wc)
  | wc :: wc2 :: pwc =>
    wc = 0 ∨
      if IsHigh wc ∧ IsLow wc2 then
        0x10ffff < fold (UInt32.ofNat (pairCp wc wc2)) ∧ Foldable pwc
      else (IsHigh wc ∨ one wc = some (unitFolded fold wc)) ∧ Foldable (wc2 :: pwc)

/-! ### Exactness -/

variable {one fold} {wc wc2 : UInt16} {pwc : List UInt16}

theorem outside_iff : wc < 0xd800 ∨ 0xdc00 ≤ wc ↔ ¬ IsHigh wc := by
  rw [IsHigh, not_and_or, UInt16.not_le, UInt16.not_lt]

/-- Where the cursor is not advanced, the loop does not end. -/
theorem foldLoop_stays
    (stays : ∀ fuel, foldLoop one fold (fuel + 1) pwc = foldLoop one fold fuel pwc) (fuel : Nat) :
    foldLoop one fold fuel pwc = none := by
  induction fuel with
  | zero => rw [foldLoop]
  | succ fuel ih => rw [stays, ih]

/-- Where the cursor is advanced, the loop ends right just if it ends right behind. -/
theorem foldLoop_advances {front front' : List UInt16} {rest : List UInt16}
    (advances : ∀ fuel, foldLoop one fold (fuel + 1) pwc =
      (foldLoop one fold fuel rest).map (front ++ ·)) (same : front.length = front'.length) :
    (∃ fuel, foldLoop one fold fuel pwc = some (front' ++ folded fold rest)) ↔
      front = front' ∧ FoldsAll fold (foldLoop one fold) rest := by
  constructor
  · rintro ⟨fuel, ends⟩
    cases fuel with
    | zero =>
      rw [foldLoop] at ends
      cases ends
    | succ fuel =>
      rw [advances, Option.map_eq_some_iff] at ends
      obtain ⟨behind, ends, whole⟩ := ends
      obtain ⟨rfl, rfl⟩ := List.append_inj whole same
      exact ⟨rfl, fuel, ends⟩
  · rintro ⟨rfl, fuel, ends⟩
    exact ⟨fuel + 1, by rw [advances, ends]; rfl⟩

/-- A unit that begins no pair. -/
theorem foldLoop_unit (more : wc ≠ 0) (single : ¬ (IsHigh wc ∧ IsLow (pwc.headD 0))) :
    (∃ fuel, foldLoop one fold fuel (wc :: pwc) = some (unitFolded fold wc :: folded fold pwc)) ↔
      (IsHigh wc ∨ one wc = some (unitFolded fold wc)) ∧ FoldsAll fold (foldLoop one fold) pwc := by
  by_cases high : IsHigh wc
  · have low : ¬ IsLow (pwc.headD 0) := fun low => single ⟨high, low⟩
    have kept : unitFolded fold wc = wc := if_pos (.inl high)
    have step (fuel : Nat) : foldLoop one fold (fuel + 1) (wc :: pwc) =
        (foldLoop one fold fuel pwc).map ([wc] ++ ·) := by
      rw [foldLoop, if_neg more, if_neg fun outside => outside_iff.mp outside high, if_neg low]
      rfl
    have whole := foldLoop_advances step (rfl : [wc].length = [wc].length)
    rw [kept]
    simpa [high] using whole
  · cases written : one wc with
    | none =>
      have stays (fuel : Nat) : foldLoop one fold (fuel + 1) (wc :: pwc) =
          foldLoop one fold fuel (wc :: pwc) := by
        rw [foldLoop, if_neg more, if_pos (outside_iff.mpr high), written]
      simp [foldLoop_stays stays, high]
    | some unit =>
      have step (fuel : Nat) : foldLoop one fold (fuel + 1) (wc :: pwc) =
          (foldLoop one fold fuel pwc).map ([unit] ++ ·) := by
        rw [foldLoop, if_neg more, if_pos (outside_iff.mpr high), written]
        rfl
      have whole : (∃ fuel, foldLoop one fold fuel (wc :: pwc) =
          some ([unitFolded fold wc] ++ folded fold pwc)) ↔
            [unit] = [unitFolded fold wc] ∧ FoldsAll fold (foldLoop one fold) pwc :=
        foldLoop_advances step rfl
      simpa [high] using whole

/-- A pair is not folded. -/
theorem foldLoop_pair (more : wc ≠ 0) (high : IsHigh wc) (low : IsLow wc2) :
    (∃ fuel, foldLoop one fold fuel (wc :: wc2 :: pwc) =
        some (pairFolded fold wc wc2 ++ folded fold pwc)) ↔
      0x10ffff < fold (UInt32.ofNat (pairCp wc wc2)) ∧ FoldsAll fold (foldLoop one fold) pwc := by
  obtain ⟨least, most, same⟩ := surrogates_pairCp
    (fun outside => outside_iff.mp (outside.imp_right fun last =>
      UInt16.le_of_lt (UInt16.lt_trans (by decide) last)) high)
    (fun late => absurd high.2 (UInt16.not_lt.mpr late)) low
  have value : (UInt32.ofNat (pairCp wc wc2)).toNat = pairCp wc wc2 :=
    UInt32.toNat_ofNat_of_lt' (Nat.lt_of_le_of_lt most (by decide))
  by_cases changed : UInt32.ofNat (pairCp wc wc2) ≠ fold (UInt32.ofNat (pairCp wc wc2)) ∧
      0x10000 ≤ fold (UInt32.ofNat (pairCp wc wc2))
  · have step (fuel : Nat) : foldLoop one fold (fuel + 1) (wc :: wc2 :: pwc) =
        (foldLoop one fold fuel pwc).map ([wc, wc2] ++ ·) := by
      rw [foldLoop, if_neg more, if_neg fun outside => outside_iff.mp outside high,
        List.headD_cons, if_pos low]
      simp only [if_pos changed, same]
      rfl
    have two : [wc, wc2].length = (pairFolded fold wc wc2).length := by
      unfold pairFolded
      dsimp only
      split_ifs <;> rfl
    rw [foldLoop_advances step two]
    refine and_congr_left fun _ => ⟨fun written => ?_, fun large => ?_⟩
    · by_contra small
      have fits := UInt32.not_lt.mp small
      rw [pairFolded] at written
      simp only [if_pos (And.intro changed.2 fits), List.cons.injEq, and_true] at written
      have back := pairCp_surrogates (UInt32.le_iff_toNat_le.mp changed.2)
        (UInt32.le_iff_toNat_le.mp fits)
      rw [UInt32.ofNat_toNat, ← written.1, ← written.2] at back
      exact changed.1 (UInt32.toNat_inj.mp (value.trans back))
    · rw [pairFolded]
      simp only [if_neg fun h : _ ∧ _ => absurd large (UInt32.not_lt.mpr h.2)]
  · have stays (fuel : Nat) : foldLoop one fold (fuel + 1) (wc :: wc2 :: pwc) =
        foldLoop one fold fuel (wc :: wc2 :: pwc) := by
      rw [foldLoop, if_neg more, if_neg fun outside => outside_iff.mp outside high,
        List.headD_cons, if_pos low]
      simp only [if_neg changed]
    have small : ¬ 0x10ffff < fold (UInt32.ofNat (pairCp wc wc2)) := by
      intro large
      refine changed ⟨fun same => ?_, UInt32.le_of_lt (UInt32.lt_trans (by decide) large)⟩
      rw [← same, UInt32.lt_iff_toNat_lt, value] at large
      exact absurd large (Nat.not_lt.mpr most)
    simp [foldLoop_stays stays, small]

theorem foldsAll_terminator (stop : pwc = [] ∨ pwc.head? = some 0) :
    FoldsAll fold (foldLoop one fold) pwc ∧ Foldable one fold pwc := by
  rcases pwc with _ | ⟨wc, _ | ⟨wc2, pwc⟩⟩
  · exact ⟨⟨1, rfl⟩, trivial⟩
  · obtain rfl : wc = 0 := by simpa using stop
    exact ⟨⟨1, rfl⟩, .inl rfl⟩
  · obtain rfl : wc = 0 := by simpa using stop
    exact ⟨⟨1, rfl⟩, .inl rfl⟩

/-- The loop ends and has folded everything just if the string can be folded. -/
theorem foldLoop_iff (pwsz : List UInt16) :
    FoldsAll fold (foldLoop one fold) pwsz ↔ Foldable one fold pwsz := by
  fun_induction folded fold pwsz with
  | case1 => exact ⟨fun _ => trivial, fun _ => (foldsAll_terminator (.inl rfl)).1⟩
  | case2 wc =>
    by_cases zero : wc = 0
    · have both : FoldsAll fold (foldLoop one fold) [wc] ∧ Foldable one fold [wc] :=
        foldsAll_terminator (.inr (by simp [zero]))
      exact ⟨fun _ => both.2, fun _ => both.1⟩
    · have alone : (∃ fuel, foldLoop one fold fuel [wc] =
          some (unitFolded fold wc :: folded fold [])) ↔
            (IsHigh wc ∨ one wc = some (unitFolded fold wc)) ∧
              FoldsAll fold (foldLoop one fold) [] :=
        foldLoop_unit zero fun pair => absurd pair.2 (by decide)
      have done : FoldsAll fold (foldLoop one fold) [] := ⟨1, rfl⟩
      rw [FoldsAll, folded, if_neg zero, Foldable]
      simpa [zero, folded, done] using alone
  | case3 wc2 pwc =>
    have both : FoldsAll fold (foldLoop one fold) (0 :: wc2 :: pwc) ∧
        Foldable one fold (0 :: wc2 :: pwc) := foldsAll_terminator (.inr rfl)
    exact ⟨fun _ => both.2, fun _ => both.1⟩
  | case4 wc wc2 pwc zero pair ih =>
    rw [FoldsAll, folded, if_neg zero, if_pos pair, foldLoop_pair zero pair.1 pair.2, ih, Foldable,
      if_pos pair]
    simp [zero]
  | case5 wc wc2 pwc zero pair ih =>
    rw [FoldsAll, folded, if_neg zero, if_neg pair,
      foldLoop_unit zero (show ¬ (IsHigh wc ∧ IsLow ((wc2 :: pwc).headD 0)) from pair), ih,
      Foldable, if_neg pair]
    simp [zero]

/-- Both functions end and fold everything just if the string can be folded. -/
theorem foldsAll_iff (fold : UInt32 → UInt32) (pwsz : List UInt16) :
    (FoldsAll fold (rtUtf16ToLower fold) pwsz ↔ Foldable (fun wc =>
      if fold wc.toUInt32 < 0x10000 then some (fold wc.toUInt32).toUInt16 else none) fold pwsz) ∧
    (FoldsAll fold (rtUtf16ToUpper fold) pwsz ↔
      Foldable (fun wc => some (fold wc.toUInt32).toUInt16) fold pwsz) :=
  ⟨foldLoop_iff pwsz, foldLoop_iff pwsz⟩

/-- A map that moves the capital letters of the Deseret alphabet to the small ones. -/
def deseretToLower (uc : UInt32) : UInt32 :=
  if 0x10400 ≤ uc ∧ uc ≤ 0x10427 then uc + 0x28 else uc

/-- A capital letter is written back as it was, and at a small one the loop does not end. -/
theorem not_foldsAll_deseret :
    ¬ (FoldsAll deseretToLower (rtUtf16ToLower deseretToLower) [0xd801, 0xdc00] ∨
      FoldsAll deseretToLower (rtUtf16ToLower deseretToLower) [0xd801, 0xdc28]) := by
  rintro (folds | folds) <;> exact absurd ((foldLoop_iff _).mp folds) (by simp [Foldable]; decide)

end Fold

end VBox.Runtime.Utf16
