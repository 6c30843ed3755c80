import VBox.Runtime.Base64
import Mathlib.Data.List.TakeWhile

/-!
The size query and the decoder of Base64.

Both walk over the sextets and the padding of a string to what follows them. They count with 32
bits, and neither minds a sextet that follows the padding.
-/

namespace VBox.Runtime.Base64

open List

/-! ### Characters -/

/-- The characters beyond the plain ones have no value, so the others are in the table. -/
theorem plain_of_entry {ch : UInt8} (value : entry ch ≠ base64Invalid) : ch < 0x80 := by
  have all : ∀ n : Fin 256, entry (UInt8.ofNat n) ≠ base64Invalid → UInt8.ofNat n < 0x80 := by
    decide +kernel
  have := all ⟨ch.toNat, UInt8.toNat_lt ch⟩
  simp only [UInt8.ofNat_toNat] at this
  exact this value

theorem charToVal_plain {ch : UInt8} (plain : ch < 0x80) : charToVal ch = .ok (entry ch) := by
  have inside : index ch < 256 := by
    rw [index, if_pos plain]
    exact UInt8.toNat_lt ch
  rw [charToVal, if_pos inside]

theorem charToVal_high {ch : UInt8} (high : ¬ ch < 0x80) : charToVal ch = .error .fault := by
  have outside : ¬ index ch < 256 := by
    rw [index, if_neg high]
    omega
  rw [charToVal, if_neg outside]

theorem IsSextet.value {ch : UInt8} (sextet : IsSextet ch) : charToVal ch = .ok (entry ch) :=
  charToVal_plain (plain_of_entry fun h => absurd (h ▸ sextet : base64Invalid < 64) (by decide))

theorem IsSpace.value {ch : UInt8} (space : IsSpace ch) : charToVal ch = .ok base64Space :=
  space ▸ charToVal_plain (plain_of_entry fun h => absurd (space.symm.trans h) (by decide))

theorem IsPad.value {ch : UInt8} (pad : IsPad ch) : charToVal ch = .ok base64Pad :=
  pad ▸ charToVal_plain (plain_of_entry fun h => absurd (pad.symm.trans h) (by decide))

theorem IsSextet.ne_space {ch : UInt8} (sextet : IsSextet ch) : ¬ IsSpace ch :=
  fun space => absurd (space ▸ sextet : base64Space < 64) (by decide)

/-! ### The parts of a string -/

section Parts

variable {ch : UInt8} (psz : List UInt8)

theorem sextets_sextet (sextet : IsSextet ch) : sextets (ch :: psz) = sextets psz + 1 := by
  simp [sextets, sextet]

theorem sextets_space (space : IsSpace ch) : sextets (ch :: psz) = sextets psz := by
  have none : ¬ IsSextet ch := fun sextet => sextet.ne_space space
  simp [sextets, space, none]

theorem textEnd_of (inside : IsSextet ch ∨ IsSpace ch) : textEnd (ch :: psz) = textEnd psz := by
  simp [textEnd, inside]

theorem sextets_stop (outside : ¬ (IsSextet ch ∨ IsSpace ch)) : sextets (ch :: psz) = 0 := by
  simp [sextets, outside]

theorem textEnd_stop (outside : ¬ (IsSextet ch ∨ IsSpace ch)) :
    textEnd (ch :: psz) = ch :: psz := by
  simp [textEnd, outside]

end Parts

/-! ### Padding -/

/-- The next character, if any, is not in the table. -/
def beyondTable (rest : List UInt8) : Bool := rest.head?.any fun ch => 0x80 ≤ ch

/-- The next character, if any, is invalid. -/
def endsInvalid (rest : List UInt8) : Bool := rest.head?.any fun ch => entry ch = base64Invalid

/-- What becomes of a string behind its sextets, by its padding and what follows it. -/
def afterPads (fEnd : Bool) (cbPad : UInt32) (rest : List UInt8) :
    Except Failure (UInt32 × List UInt8) :=
  if beyondTable rest then .error .fault
  else if cbPad ≥ 3 then .error .invalidEncoding
  else if endsInvalid rest ∧ !fEnd then .error .invalidEncoding
  else .ok (cbPad, rest)

section PadLoop

variable {ch : UInt8} (cbPad : UInt32) (u8 : UInt8) (psz : List UInt8)

example : padLoop 1 0 [0x3d] = .ok (2, base64Pad, []) := by
  rw [padLoop]
  rfl

theorem padLoop_pad (pad : IsPad ch) :
    padLoop cbPad u8 (ch :: psz) = padLoop (cbPad + 1) base64Pad psz := by
  rw [padLoop, pad.value]
  rfl

theorem padLoop_space (space : IsSpace ch) :
    padLoop cbPad u8 (ch :: psz) = padLoop cbPad base64Space psz := by
  rw [padLoop, space.value]
  rfl

theorem padLoop_stop (plain : ch < 0x80) (outside : ¬ (IsPad ch ∨ IsSpace ch)) :
    padLoop cbPad u8 (ch :: psz) = .ok (cbPad, entry ch, ch :: psz) := by
  obtain ⟨pad, space⟩ := not_or.mp outside
  rw [padLoop, charToVal_plain plain]
  exact (if_pos space).trans (if_pos pad)

theorem padLoop_high (high : ¬ ch < 0x80) : padLoop cbPad u8 (ch :: psz) = .error .fault := by
  rw [padLoop, charToVal_high high]
  rfl

end PadLoop

theorem add_ofNat_succ (count : UInt32) (n : Nat) :
    count + 1 + UInt32.ofNat n = count + UInt32.ofNat (n + 1) := by
  rw [UInt32.ofNat_add, UInt32.add_assoc, UInt32.add_comm 1]
  rfl

/-- The padding loop counts the padding and stops at what follows it. -/
theorem padLoop_eq (cbPad : UInt32) (u8 : UInt8) (psz : List UInt8) :
    let rest := psz.dropWhile fun ch => IsPad ch ∨ IsSpace ch
    let count := (psz.takeWhile fun ch => IsPad ch ∨ IsSpace ch).countP fun ch => IsPad ch
    if beyondTable rest then padLoop cbPad u8 psz = .error .fault
    else ∃ u8', padLoop cbPad u8 psz = .ok (cbPad + UInt32.ofNat count, u8', rest) ∧
      (u8' = base64Invalid ∧ rest ≠ [] ↔ endsInvalid rest = true) := by
  induction psz generalizing cbPad u8 with
  | nil => simp [beyondTable, padLoop, endsInvalid]
  | cons ch psz ih =>
    by_cases pad : IsPad ch
    · simpa [padLoop_pad cbPad u8 psz pad, pad, add_ofNat_succ] using ih (cbPad + 1) base64Pad
    by_cases space : IsSpace ch
    · simpa [padLoop_space cbPad u8 psz space, pad, space] using ih cbPad base64Space
    by_cases plain : ch < 0x80
    · simp [padLoop_stop cbPad u8 psz plain (not_or.mpr ⟨pad, space⟩), pad, space, beyondTable,
        UInt8.not_le.mpr plain, endsInvalid]
    · simp [padLoop_high cbPad u8 psz plain, pad, space, beyondTable, UInt8.not_lt.mp plain]

/-- A scan has come to a stop: its last value is that of the next character, if any, and of no
padding otherwise. -/
def Stopped (u8 : UInt8) : List UInt8 → Prop
  | [] => u8 ≠ base64Pad
  | ch :: _ => ch < 0x80 ∧ ¬ IsSpace ch ∧ u8 = entry ch

/-- The checks behind the padding, on the last value or on the next character. -/
theorem checkPads_eq (fEnd : Bool) {cbPad : UInt32} {u8 : UInt8} {rest : List UInt8}
    (inside : ¬ beyondTable rest = true)
    (ends : u8 = base64Invalid ∧ rest ≠ [] ↔ endsInvalid rest = true) :
    checkPads fEnd (cbPad, u8, rest) = afterPads fEnd cbPad rest := by
  have same : (u8 = base64Invalid ∧ (!fEnd) = true ∧ rest ≠ []) ↔
      endsInvalid rest = true ∧ (!fEnd) = true := by
    rw [← ends]
    tauto
  rw [afterPads, if_neg inside, checkPads]
  simp only [same]

/-- What is read behind the sextets. -/
theorem readPads_eq (fEnd : Bool) {u8 : UInt8} {psz : List UInt8} (stopped : Stopped u8 psz) :
    readPads fEnd u8 psz = afterPads fEnd
        (UInt32.ofNat ((psz.takeWhile fun ch => IsPad ch ∨ IsSpace ch).countP fun ch => IsPad ch))
        (psz.dropWhile fun ch => IsPad ch ∨ IsSpace ch) := by
  cases psz with
  | nil =>
    have none : ¬ u8 = base64Pad := stopped
    have inside : ¬ beyondTable [] = true := by simp [beyondTable]
    have ends : u8 = base64Invalid ∧ ([] : List UInt8) ≠ [] ↔ endsInvalid [] = true := by
      simp [endsInvalid]
    have checked : checkPads fEnd (0, u8, []) = afterPads fEnd 0 [] := checkPads_eq fEnd inside ends
    rw [readPads, if_neg none]
    exact checked
  | cons ch psz =>
    obtain ⟨plain, space, rfl⟩ := stopped
    by_cases pad : entry ch = base64Pad
    · have isPad : IsPad ch := pad
      have loop := padLoop_eq 1 (entry ch) psz
      have first (n : Nat) : 1 + UInt32.ofNat n = UInt32.ofNat (n + 1) := by
        rw [UInt32.ofNat_add, UInt32.add_comm]
        rfl
      rw [readPads, if_pos pad, tail_cons, dropWhile_cons_of_pos (by simp [isPad]),
        takeWhile_cons_of_pos (by simp [isPad]), countP_cons_of_pos (by simp [isPad]),
        ← first]
      dsimp only at loop
      split at loop
      · rename_i beyond
        rw [loop, afterPads, if_pos beyond]
        rfl
      · rename_i inside
        obtain ⟨u8', done, ends⟩ := loop
        rw [done]
        exact checkPads_eq fEnd inside ends
    · have outside : ¬ (IsPad ch ∨ IsSpace ch) := not_or.mpr ⟨pad, space⟩
      have inside : ¬ beyondTable (ch :: psz) = true := by
        simpa [beyondTable] using plain
      have ends : entry ch = base64Invalid ∧ ch :: psz ≠ [] ↔ endsInvalid (ch :: psz) = true := by
        simp [endsInvalid]
      have checked : checkPads fEnd (0, entry ch, ch :: psz) = afterPads fEnd 0 (ch :: psz) :=
        checkPads_eq fEnd inside ends
      rw [readPads, if_neg pad, dropWhile_cons_of_neg (by simpa using outside),
        takeWhile_cons_of_neg (by simpa using outside)]
      exact checked

/-! ### The size -/

section SizeLoop

variable {ch : UInt8} (c6Bits : UInt32) (u8 : UInt8) (psz : List UInt8)

example : sizeLoop 0 0 [0x41] = .ok (1, 0, []) := by
  rw [sizeLoop]
  rfl

theorem sizeLoop_sextet (sextet : IsSextet ch) :
    sizeLoop c6Bits u8 (ch :: psz) = sizeLoop (c6Bits + 1) (entry ch) psz := by
  rw [sizeLoop, sextet.value]
  exact if_pos sextet

theorem sizeLoop_space (space : IsSpace ch) :
    sizeLoop c6Bits u8 (ch :: psz) = sizeLoop c6Bits base64Space psz := by
  rw [sizeLoop, space.value]
  rfl

theorem sizeLoop_stop (plain : ch < 0x80) (outside : ¬ (IsSextet ch ∨ IsSpace ch)) :
    sizeLoop c6Bits u8 (ch :: psz) = .ok (c6Bits, entry ch, ch :: psz) := by
  obtain ⟨sextet, space⟩ := not_or.mp outside
  rw [sizeLoop, charToVal_plain plain]
  exact (if_neg sextet).trans (if_pos space)

theorem sizeLoop_high (high : ¬ ch < 0x80) : sizeLoop c6Bits u8 (ch :: psz) = .error .fault := by
  rw [sizeLoop, charToVal_high high]
  rfl

end SizeLoop

/-- The first loop counts the sextets and stops at what follows them. -/
theorem sizeLoop_eq (c6Bits : UInt32) {u8 : UInt8} (none : u8 ≠ base64Pad) (psz : List UInt8) :
    if beyondTable (textEnd psz) then sizeLoop c6Bits u8 psz = .error .fault
    else ∃ u8', sizeLoop c6Bits u8 psz =
        .ok (c6Bits + UInt32.ofNat (sextets psz), u8', textEnd psz) ∧
      Stopped u8' (textEnd psz) := by
  induction psz generalizing c6Bits u8 with
  | nil => simpa [beyondTable, textEnd, sizeLoop, sextets, Stopped] using none
  | cons ch psz ih =>
    by_cases sextet : IsSextet ch
    · have value : entry ch ≠ base64Pad := fun h => absurd (h ▸ sextet : base64Pad < 64) (by decide)
      rw [textEnd_of psz (.inl sextet), sizeLoop_sextet c6Bits u8 psz sextet,
        sextets_sextet psz sextet, ← add_ofNat_succ]
      exact ih (c6Bits + 1) value
    by_cases space : IsSpace ch
    · rw [textEnd_of psz (.inr space), sizeLoop_space c6Bits u8 psz space, sextets_space psz space]
      exact ih c6Bits (by decide)
    have outside : ¬ (IsSextet ch ∨ IsSpace ch) := not_or.mpr ⟨sextet, space⟩
    rw [textEnd_stop psz outside, sextets_stop psz outside]
    by_cases plain : ch < 0x80
    · rw [if_neg (by simp [beyondTable, UInt8.not_le.mpr plain]),
        sizeLoop_stop c6Bits u8 psz plain outside]
      exact ⟨entry ch, by simp, plain, space, rfl⟩
    · rw [if_pos (by simp [beyondTable, UInt8.not_lt.mp plain]),
        sizeLoop_high c6Bits u8 psz plain]

/-- The size of a whole number of sextets. -/
theorem bytes_eq (c6Bits : UInt32) : bytes c6Bits =
      if c6Bits.toNat % 4 = 0 then .ok (c6Bits.toNat / 4 * 3) else .error .invalidEncoding := by
  have small := UInt32.toNat_lt c6Bits
  have fits : c6Bits * 3 / 3 = c6Bits ↔ c6Bits.toNat * 3 < 2 ^ 32 := by
    rw [← UInt32.toNat_inj]
    simp only [UInt32.toNat_div, UInt32.toNat_mul, UInt32.reduceToNat]
    omega
  have rest : c6Bits * 3 % 4 ≠ 0 ↔ c6Bits.toNat * 3 % 2 ^ 32 % 4 ≠ 0 := by
    rw [ne_eq, ← UInt32.toNat_inj]
    simp
  unfold bytes
  simp only [fits, rest, UInt32.toNat_div, UInt32.toNat_mul, UInt32.reduceToNat]
  split_ifs <;> first | omega | (congr 1; omega) | rfl

/-- What stands behind the sextets in a string that is beyond the table there. -/
theorem beyondTable_behind {psz : List UInt8} (beyond : beyondTable (textEnd psz) = true) :
    beyondTable (behind psz) = true := by
  unfold behind
  cases end_ : textEnd psz with
  | nil => rw [end_] at beyond; cases beyond
  | cons ch rest =>
    have high : 0x80 ≤ ch := by simpa [end_, beyondTable] using beyond
    have value : entry ch = base64Invalid := by
      by_contra h
      exact UInt8.not_lt.mpr high (plain_of_entry h)
    have outside : ¬ (IsPad ch ∨ IsSpace ch) := by
      rw [IsPad, IsSpace, value]
      decide
    rw [dropWhile_cons_of_neg (by simpa using outside)]
    simpa [beyondTable] using high

/-- The padding, as it is counted. -/
def cbPads (psz : List UInt8) : UInt32 := UInt32.ofNat (pads psz)

/-- The size of a string. -/
theorem rtBase64DecodedSize_eq (psz : List UInt8) (fEnd : Bool) : rtBase64DecodedSize psz fEnd =
      (afterPads fEnd (cbPads psz) (behind psz)).bind fun (cbPad, rest) =>
        (bytes (UInt32.ofNat (sextets psz) + cbPad)).bind fun cb =>
          if cb < cbPad.toNat then .error .invalidEncoding else .ok (cb - cbPad.toNat, rest) := by
  have loop := sizeLoop_eq 0 (show base64Invalid ≠ base64Pad by decide) psz
  split at loop
  · rename_i beyond
    rw [rtBase64DecodedSize, loop, afterPads, if_pos (beyondTable_behind beyond)]
    rfl
  · obtain ⟨u8, done, stopped⟩ := loop
    rw [UInt32.zero_add] at done
    have after : readPads fEnd u8 (textEnd psz) =
        afterPads fEnd (cbPads psz) (behind psz) := readPads_eq fEnd stopped
    rw [rtBase64DecodedSize, done, ← after]
    rfl

/-! ### Decoding -/

section DecodeLoop

variable {ch : UInt8} (c6Bits : Nat) (u8Trio : Trio) (cbData : Nat) (psz : List UInt8)

example : decodeLoop 3 ⟨0, 0, 0⟩ 0 [0x41] = .error .bufferOverflow := by
  rw [decodeLoop]
  rfl

theorem decodeLoop_space (space : IsSpace ch) :
    decodeLoop c6Bits u8Trio cbData (ch :: psz) = decodeLoop c6Bits u8Trio cbData psz := by
  rw [decodeLoop, space.value]
  rfl

theorem decodeLoop_stop (plain : ch < 0x80) (outside : ¬ (IsSextet ch ∨ IsSpace ch)) :
    decodeLoop c6Bits u8Trio cbData (ch :: psz) =
      .ok ([], ⟨c6Bits, u8Trio, cbData, entry ch, ch :: psz⟩) := by
  obtain ⟨sextet, space⟩ := not_or.mp outside
  rw [decodeLoop, charToVal_plain plain]
  exact (if_neg space).trans (if_pos (UInt8.not_lt.mp sextet))

theorem decodeLoop_high (high : ¬ ch < 0x80) :
    decodeLoop c6Bits u8Trio cbData (ch :: psz) = .error .fault := by
  rw [decodeLoop, charToVal_high high]
  rfl

/-- A trio with the bits of one more sextet. -/
def addSextet (c6Bits : Nat) (u8Trio : Trio) (u8 : UInt8) : Trio :=
  match c6Bits with
  | 0 => { u8Trio with b0 := u8 <<< 2 }
  | 1 => { u8Trio with b0 := u8Trio.b0 ||| u8 >>> 4, b1 := u8 <<< 4 }
  | 2 => { u8Trio with b1 := u8Trio.b1 ||| u8 >>> 2, b2 := u8 <<< 6 }
  | _ => { u8Trio with b2 := u8Trio.b2 ||| u8 }

theorem decodeLoop_pending (sextet : IsSextet ch) (pending : c6Bits < 3) :
    decodeLoop c6Bits u8Trio cbData (ch :: psz) =
      decodeLoop (c6Bits + 1) (addSextet c6Bits u8Trio (entry ch)) cbData psz := by
  have low : ¬ entry ch ≥ 64 := UInt8.not_le.mpr sextet
  rw [decodeLoop, sextet.value]
  refine (if_neg sextet.ne_space).trans ((if_neg low).trans ?_)
  match c6Bits, pending with
  | 0, _ | 1, _ | 2, _ => rfl

theorem decodeLoop_flush (sextet : IsSextet ch) : decodeLoop 3 u8Trio cbData (ch :: psz) =
      if cbData < 3 then .error .bufferOverflow
      else
        (decodeLoop 0 (addSextet 3 u8Trio (entry ch)) (cbData - 3) psz).map fun (data, stop) =>
          (u8Trio.b0 :: u8Trio.b1 :: (u8Trio.b2 ||| entry ch) :: data, stop) := by
  have low : ¬ entry ch ≥ 64 := UInt8.not_le.mpr sextet
  rw [decodeLoop, sextet.value]
  refine (if_neg sextet.ne_space).trans ((if_neg low).trans ?_)
  by_cases short : cbData < 3
  · rw [if_pos short, if_pos short]
    rfl
  · rw [if_neg short, if_neg short]
    cases decoded : decodeLoop 0 (addSextet 3 u8Trio (entry ch)) (cbData - 3) psz <;>
      exact (congrArg (· >>= _) decoded).trans rfl

end DecodeLoop

/-- The loop stores three bytes for each four sextets, as long as they fit. -/
theorem decodeLoop_eq {c6Bits : Nat} (pending : c6Bits < 4) (u8Trio : Trio) (cbData : Nat)
    (psz : List UInt8) :
    if cbData < (c6Bits + sextets psz) / 4 * 3 then
      decodeLoop c6Bits u8Trio cbData psz = .error .bufferOverflow
    else if beyondTable (textEnd psz) then
      decodeLoop c6Bits u8Trio cbData psz = .error .fault
    else ∃ data u8Trio' u8, decodeLoop c6Bits u8Trio cbData psz =
        .ok (data, ⟨(c6Bits + sextets psz) % 4, u8Trio',
          cbData - (c6Bits + sextets psz) / 4 * 3, u8, textEnd psz⟩) ∧
      data.length = (c6Bits + sextets psz) / 4 * 3 ∧ Stopped u8 (textEnd psz) := by
  induction psz generalizing c6Bits u8Trio cbData with
  | nil =>
    have none : (c6Bits + sextets []) / 4 = 0 := Nat.div_eq_of_lt pending
    have same : (c6Bits + sextets []) % 4 = c6Bits := Nat.mod_eq_of_lt pending
    rw [none, same, if_neg (Nat.not_lt_zero _), if_neg (by simp [beyondTable, textEnd])]
    exact ⟨[], u8Trio, entry 0, rfl, rfl, show entry 0 ≠ base64Pad by decide⟩
  | cons ch psz ih =>
    by_cases sextet : IsSextet ch
    · rw [sextets_sextet psz sextet, textEnd_of psz (.inl sextet)]
      by_cases last : c6Bits = 3
      · subst last
        have quotient : (3 + (sextets psz + 1)) / 4 = (0 + sextets psz) / 4 + 1 := by omega
        have rest : (3 + (sextets psz + 1)) % 4 = (0 + sextets psz) % 4 := by omega
        rw [quotient, rest, decodeLoop_flush u8Trio cbData psz sextet]
        by_cases short : cbData < 3
        · rw [if_pos (by omega), if_pos short]
        · have tail := ih (show 0 < 4 by decide) (addSextet 3 u8Trio (entry ch)) (cbData - 3)
          rw [if_neg short]
          by_cases overflow : cbData - 3 < (0 + sextets psz) / 4 * 3
          · rw [if_pos overflow] at tail
            rw [if_pos (by omega), tail]
            rfl
          rw [if_neg overflow] at tail
          rw [if_neg (by omega)]
          by_cases beyond : beyondTable (textEnd psz) = true
          · rw [if_pos beyond] at tail ⊢
            rw [tail]
            rfl
          · rw [if_neg beyond] at tail ⊢
            obtain ⟨data, u8Trio', u8, done, length, stopped⟩ := tail
            have left : cbData - 3 - (0 + sextets psz) / 4 * 3 =
                cbData - ((0 + sextets psz) / 4 + 1) * 3 := by omega
            rw [done, left]
            exact ⟨_, u8Trio', u8, rfl, by simp [length]; omega, stopped⟩
      · have tail := ih (show c6Bits + 1 < 4 by omega) (addSextet c6Bits u8Trio (entry ch)) cbData
        rw [decodeLoop_pending c6Bits u8Trio cbData psz sextet (by omega),
          show c6Bits + (sextets psz + 1) = c6Bits + 1 + sextets psz by omega]
        exact tail
    by_cases space : IsSpace ch
    · rw [sextets_space psz space, textEnd_of psz (.inr space),
        decodeLoop_space c6Bits u8Trio cbData psz space]
      exact ih pending u8Trio cbData
    have outside : ¬ (IsSextet ch ∨ IsSpace ch) := not_or.mpr ⟨sextet, space⟩
    rw [textEnd_stop psz outside, sextets_stop psz outside, Nat.add_zero,
      Nat.div_eq_of_lt pending, Nat.mod_eq_of_lt pending, if_neg (Nat.not_lt_zero _)]
    by_cases plain : ch < 0x80
    · rw [if_neg (by simp [beyondTable, UInt8.not_le.mpr plain]),
        decodeLoop_stop c6Bits u8Trio cbData psz plain outside]
      exact ⟨[], u8Trio, entry ch, rfl, rfl, plain, space, rfl⟩
    · rw [if_pos (by simp [beyondTable, UInt8.not_lt.mp plain]),
        decodeLoop_high c6Bits u8Trio cbData psz plain]

/-- The pending sextets and the padding are to make four; then so many bytes are left. -/
theorem finishTrio_eq {c6Bits : Nat} (pending : c6Bits < 4) (u8Trio : Trio) (cbData : Nat)
    {cbPad : UInt32} (few : cbPad < 3) :
    if c6Bits = 0 ∧ cbPad.toNat = 0 then finishTrio c6Bits u8Trio cbData cbPad = .ok []
    else if c6Bits + cbPad.toNat ≠ 4 then
      finishTrio c6Bits u8Trio cbData cbPad = .error .invalidEncoding
    else if cbData < 3 - cbPad.toNat then
      finishTrio c6Bits u8Trio cbData cbPad = .error .bufferOverflow
    else ∃ data, finishTrio c6Bits u8Trio cbData cbPad = .ok data ∧
      data.length = 3 - cbPad.toNat := by
  have small : cbPad.toNat < 3 := by simpa [UInt32.lt_iff_toNat_lt] using few
  have zero : cbPad = 0 ↔ cbPad.toNat = 0 := by rw [← UInt32.toNat_inj]; rfl
  have left : (3 - cbPad).toNat = 3 - cbPad.toNat := by
    rw [UInt32.toNat_sub_of_le _ _ (UInt32.le_iff_toNat_le.mpr (by simpa using small.le))]
    rfl
  have sum : UInt32.ofNat c6Bits + cbPad = 4 ↔ c6Bits + cbPad.toNat = 4 := by
    rw [← UInt32.toNat_inj]
    simp
    omega
  unfold finishTrio
  rw [left]
  by_cases none : c6Bits = 0 ∧ cbPad.toNat = 0
  · have nothing : ¬ (c6Bits ≠ 0 ∨ cbPad ≠ 0) := by tauto
    rw [if_pos none, if_neg nothing]
  have some : c6Bits ≠ 0 ∨ cbPad ≠ 0 := by tauto
  rw [if_neg none, if_pos some]
  by_cases four : c6Bits + cbPad.toNat = 4
  · rw [if_neg (not_not_intro four), if_neg (not_not_intro (sum.mpr four))]
    obtain one | two : cbPad.toNat = 1 ∨ cbPad.toNat = 2 := by omega
    · rw [one]
      by_cases short : cbData < 3 - 1
      · rw [if_pos short]
        exact if_pos short
      · rw [if_neg short]
        exact ⟨_, if_neg short, rfl⟩
    · rw [two]
      by_cases short : cbData < 3 - 2
      · rw [if_pos short]
        exact if_pos short
      · rw [if_neg short]
        exact ⟨_, if_neg short, rfl⟩
  · rw [if_pos four, if_pos fun h => four (sum.mp h)]

/-! ### What is accepted -/

/-- Nothing is wrong behind the sextets. -/
def Fine (fEnd : Bool) (cbPad : UInt32) (rest : List UInt8) : Prop :=
  beyondTable rest = false ∧ cbPad.toNat < 3 ∧ (fEnd = false → endsInvalid rest = false)

variable {fEnd : Bool} {rest : List UInt8}

theorem afterPads_ok {cbPad cbPad' : UInt32} {rest' : List UInt8} :
    afterPads fEnd cbPad rest = .ok (cbPad', rest') ↔
      Fine fEnd cbPad rest ∧ cbPad' = cbPad ∧ rest' = rest := by
  have many : cbPad ≥ 3 ↔ ¬ cbPad.toNat < 3 := by simp [UInt32.le_iff_toNat_le]
  unfold afterPads Fine
  simp only [many]
  cases beyondTable rest <;> cases endsInvalid rest <;> cases fEnd <;>
    by_cases few : cbPad.toNat < 3 <;> simp [few, eq_comm]

theorem afterPads_fault {cbPad : UInt32} :
    afterPads fEnd cbPad rest = .error .fault ↔ beyondTable rest = true := by
  unfold afterPads
  split_ifs <;> simp_all

variable {n : Nat}

theorem decodedSize_ok {psz : List UInt8} : rtBase64DecodedSize psz fEnd = .ok (n, rest) ↔
      (Fine fEnd (cbPads psz) (behind psz) ∧ rest = behind psz) ∧
        (sextets psz + (cbPads psz).toNat) % 4 = 0 ∧
        n + (cbPads psz).toNat = (sextets psz + (cbPads psz).toNat) % 2 ^ 32 / 4 * 3 := by
  have sum : (UInt32.ofNat (sextets psz) + cbPads psz).toNat =
      (sextets psz + (cbPads psz).toNat) % 2 ^ 32 := by
    simp
  rw [rtBase64DecodedSize_eq]
  cases after : afterPads fEnd (cbPads psz) (behind psz) with
  | error failure =>
    have none : ¬ (Fine fEnd (cbPads psz) (behind psz) ∧ rest = behind psz) := fun ⟨fine, _⟩ => by
      rw [afterPads_ok.mpr ⟨fine, rfl, rfl⟩] at after
      cases after
    exact ⟨fun sized => (by cases sized), fun ⟨fine, _⟩ => absurd fine none⟩
  | ok read =>
    obtain ⟨cbPad, stop⟩ := read
    obtain ⟨fine, rfl, rfl⟩ := afterPads_ok.mp after
    change ((bytes (UInt32.ofNat (sextets psz) + cbPads psz)).bind fun cb =>
      if cb < (cbPads psz).toNat then .error .invalidEncoding
      else .ok (cb - (cbPads psz).toNat, behind psz)) = .ok (n, rest) ↔ _
    rw [bytes_eq, sum]
    by_cases whole : (sextets psz + (cbPads psz).toNat) % 2 ^ 32 % 4 = 0
    · rw [if_pos whole]
      change (if (sextets psz + (cbPads psz).toNat) % 2 ^ 32 / 4 * 3 < (cbPads psz).toNat then
        Except.error Failure.invalidEncoding else _) = _ ↔ _
      split_ifs with short
      · exact ⟨fun sized => (by cases sized), fun ⟨_, _, _⟩ => by omega⟩
      · rw [Except.ok.injEq, Prod.mk.injEq]
        constructor
        · rintro ⟨rfl, rfl⟩
          exact ⟨⟨fine, rfl⟩, by omega, by omega⟩
        · rintro ⟨⟨_, rfl⟩, _, size⟩
          exact ⟨by omega, rfl⟩
    · rw [if_neg whole]
      exact ⟨fun sized => (by cases sized), fun ⟨_, _, _⟩ => by omega⟩

/-- The decoder, by the sextets, the padding and what follows them. -/
theorem rtBase64Decode_eq (psz : List UInt8) (cbData : Nat) (fEnd : Bool) :
    if cbData < sextets psz / 4 * 3 then rtBase64Decode psz cbData fEnd = .error .bufferOverflow
    else ∃ data u8Trio, data.length = sextets psz / 4 * 3 ∧
      rtBase64Decode psz cbData fEnd =
        (afterPads fEnd (cbPads psz) (behind psz)).bind fun (cbPad, rest) =>
          (finishTrio (sextets psz % 4) u8Trio (cbData - sextets psz / 4 * 3) cbPad).bind
            fun last => .ok (data ++ last, rest) := by
  have loop := decodeLoop_eq (show 0 < 4 by decide) ⟨0, 0, 0⟩ cbData psz
  rw [Nat.zero_add] at loop
  by_cases overflow : cbData < sextets psz / 4 * 3
  · rw [if_pos overflow] at loop ⊢
    rw [rtBase64Decode, decodeFrom, loop]
    rfl
  rw [if_neg overflow] at loop ⊢
  by_cases beyond : beyondTable (textEnd psz) = true
  · rw [if_pos beyond] at loop
    refine ⟨replicate (sextets psz / 4 * 3) 0, ⟨0, 0, 0⟩, length_replicate, ?_⟩
    rw [afterPads_fault.mpr (beyondTable_behind beyond), rtBase64Decode, decodeFrom, loop]
    rfl
  · rw [if_neg beyond] at loop
    obtain ⟨data, u8Trio, u8, done, length, stopped⟩ := loop
    refine ⟨data, u8Trio, length, ?_⟩
    have after : readPads fEnd u8 (textEnd psz) =
        afterPads fEnd (cbPads psz) (behind psz) := readPads_eq fEnd stopped
    rw [← after, rtBase64Decode, decodeFrom, done]
    change ((readPads fEnd u8 (textEnd psz)).bind fun (cbPad, rest) =>
      (finishTrio (sextets psz % 4) u8Trio (cbData - sextets psz / 4 * 3) cbPad).bind fun last =>
        .ok (last, rest)).bind (fun read => .ok (data ++ read.1, read.2)) = _
    cases readPads fEnd u8 (textEnd psz) with
    | error failure => rfl
    | ok read =>
      cases last : finishTrio (sextets psz % 4) u8Trio (cbData - sextets psz / 4 * 3) read.1 <;>
        simp [Except.bind, last]

/-- The decoder runs to what follows the sextets and finishes there. -/
theorem decode_ok {psz : List UInt8} {cbData : Nat} :
    (∃ data, rtBase64Decode psz cbData fEnd = .ok (data, rest) ∧ data.length = n) ↔
      (Fine fEnd (cbPads psz) (behind psz) ∧ rest = behind psz) ∧
        (sextets psz + (cbPads psz).toNat) % 4 = 0 ∧
        n + (cbPads psz).toNat = (sextets psz + (cbPads psz).toNat) / 4 * 3 ∧ n ≤ cbData := by
  have decoded := rtBase64Decode_eq psz cbData fEnd
  by_cases overflow : cbData < sextets psz / 4 * 3
  · rw [if_pos overflow] at decoded
    rw [decoded]
    constructor
    · rintro ⟨data, failed, _⟩
      cases failed
    · rintro ⟨⟨⟨_, few, _⟩, _⟩, whole, size, fits⟩
      omega
  rw [if_neg overflow] at decoded
  obtain ⟨data, u8Trio, length, decoded⟩ := decoded
  rw [decoded]
  cases after : afterPads fEnd (cbPads psz) (behind psz) with
  | error failure =>
    have none : ¬ (Fine fEnd (cbPads psz) (behind psz) ∧ rest = behind psz) := fun ⟨fine, _⟩ => by
      rw [afterPads_ok.mpr ⟨fine, rfl, rfl⟩] at after
      cases after
    exact ⟨fun ⟨_, failed, _⟩ => (by cases failed), fun ⟨fine, _⟩ => absurd fine none⟩
  | ok read =>
    obtain ⟨cbPad, stop⟩ := read
    obtain ⟨fine, rfl, rfl⟩ := afterPads_ok.mp after
    have few := fine.2.1
    have last := finishTrio_eq (Nat.mod_lt (sextets psz) (by decide : 4 > 0)) u8Trio
      (cbData - sextets psz / 4 * 3) (UInt32.lt_iff_toNat_lt.mpr few)
    change (∃ out, ((finishTrio (sextets psz % 4) u8Trio (cbData - sextets psz / 4 * 3)
      (cbPads psz)).bind fun last => .ok (data ++ last, behind psz)) = .ok (out, rest) ∧ _) ↔ _
    split_ifs at last with nothing wrong short
    · rw [last]
      simp only [Except.bind, append_nil, Except.ok.injEq, Prod.mk.injEq]
      constructor
      · rintro ⟨out, ⟨rfl, rfl⟩, rfl⟩
        exact ⟨⟨fine, rfl⟩, by omega, by omega, by omega⟩
      · rintro ⟨⟨_, rfl⟩, _, size, _⟩
        exact ⟨data, ⟨rfl, rfl⟩, by omega⟩
    · rw [last]
      refine ⟨fun ⟨_, failed, _⟩ => (by cases failed), fun ⟨_, whole, _⟩ => ?_⟩
      omega
    · rw [last]
      refine ⟨fun ⟨_, failed, _⟩ => (by cases failed), fun ⟨_, whole, size, fits⟩ => ?_⟩
      omega
    · obtain ⟨bytes, last, count⟩ := last
      rw [last]
      simp only [Except.bind, Except.ok.injEq, Prod.mk.injEq]
      constructor
      · rintro ⟨out, ⟨rfl, rfl⟩, rfl⟩
        rw [length_append]
        exact ⟨⟨fine, rfl⟩, by omega, by omega, by omega⟩
      · rintro ⟨⟨_, rfl⟩, _, size, _⟩
        refine ⟨data ++ bytes, ⟨rfl, rfl⟩, ?_⟩
        rw [length_append]
        omega

/-- The decoder leaves the table just where the sextets and the padding end. -/
theorem decode_fault {psz : List UInt8} {cbData : Nat}
    (fault : rtBase64Decode psz cbData fEnd = .error .fault) : beyondTable (behind psz) = true := by
  have decoded := rtBase64Decode_eq psz cbData fEnd
  split at decoded
  · rw [decoded] at fault
    cases fault
  obtain ⟨data, u8Trio, -, decoded⟩ := decoded
  rw [decoded] at fault
  cases after : afterPads fEnd (cbPads psz) (behind psz) with
  | error failure =>
    rw [after] at fault
    cases fault
    exact afterPads_fault.mp after
  | ok read =>
    obtain ⟨cbPad, stop⟩ := read
    obtain ⟨fine, rfl, rfl⟩ := afterPads_ok.mp after
    have last := finishTrio_eq (Nat.mod_lt (sextets psz) (by decide : 4 > 0)) u8Trio
      (cbData - sextets psz / 4 * 3) (UInt32.lt_iff_toNat_lt.mpr fine.2.1)
    rw [after] at fault
    change ((finishTrio (sextets psz % 4) u8Trio (cbData - sextets psz / 4 * 3)
      (cbPads psz)).bind fun last => .ok (data ++ last, behind psz)) = _ at fault
    split_ifs at last with nothing wrong short
    · rw [last] at fault; cases fault
    · rw [last] at fault; cases fault
    · rw [last] at fault; cases fault
    · obtain ⟨bytes, last, -⟩ := last
      rw [last] at fault
      cases fault

/-! ### Agreement -/

/-- A whole string is one text: sextets, then padding, with white space anywhere. -/
def OneText (psz : List UInt8) : Prop :=
  ∃ text padding, psz = text ++ padding ∧ (∀ ch ∈ text, IsSextet ch ∨ IsSpace ch) ∧
    ∀ ch ∈ padding, IsPad ch ∨ IsSpace ch

/-- The size query and the decoder stay within the table and take a string alike, with the size
that the data have; with no pointer for the rest, the string is one text. -/
structure Agree (psz : List UInt8) (fEnd : Bool) : Prop where
  sizeInside : rtBase64DecodedSize psz fEnd ≠ .error .fault
  decodeInside : ∀ cbData, rtBase64Decode psz cbData fEnd ≠ .error .fault
  same : ∀ n rest, rtBase64DecodedSize psz fEnd = .ok (n, rest) ↔
    ∃ data, rtBase64Decode psz n fEnd = .ok (data, rest) ∧ data.length = n
  whole : fEnd = false → ∀ n rest, rtBase64DecodedSize psz fEnd = .ok (n, rest) → OneText psz

/-- There is not too much padding, it makes up for the sextets that are missing, and nothing
invalid follows where nothing may follow. The padding is counted with 32 bits. -/
def Accepted (psz : List UInt8) (fEnd : Bool) : Prop :=
  (cbPads psz).toNat < 3 ∧ (sextets psz + (cbPads psz).toNat) % 4 = 0 ∧
    (fEnd = false → endsInvalid (behind psz) = false)

theorem oneText_iff (psz : List UInt8) : OneText psz ↔ behind psz = [] := by
  constructor
  · rintro ⟨text, padding, rfl, isText, isPadding⟩
    have rest : textEnd (text ++ padding) = textEnd padding :=
      dropWhile_append_of_pos fun ch mem => decide_eq_true (isText ch mem)
    rw [behind, rest, dropWhile_eq_nil_iff]
    exact fun ch mem => decide_eq_true (isPadding ch ((dropWhile_suffix _).mem mem))
  · intro nothing
    refine ⟨_, textEnd psz, (takeWhile_append_dropWhile).symm, ?_, ?_⟩
    · exact fun ch mem => by simpa using mem_takeWhile_imp mem
    · exact fun ch mem => of_decide_eq_true (dropWhile_eq_nil_iff.mp nothing ch mem)

theorem decodedSize_fault {psz : List UInt8} :
    rtBase64DecodedSize psz fEnd = .error .fault ↔ beyondTable (behind psz) = true := by
  rw [rtBase64DecodedSize_eq, ← afterPads_fault]
  cases after : afterPads fEnd (cbPads psz) (behind psz) with
  | error failure => simp [Except.bind]
  | ok read =>
    obtain ⟨cbPad, stop⟩ := read
    have never (n : Nat) : (if n < cbPad.toNat then Except.error Failure.invalidEncoding
        else .ok (n - cbPad.toNat, stop)) ≠ .error .fault := by
      split_ifs <;> simp
    simp only [Except.bind, bytes_eq]
    split_ifs
    · simpa using never _
    · simp

/-- The size query and the decoder agree just on the strings where a plain character, if any,
follows the text, fewer than 2^32 sextets and padding characters are counted, and nothing follows
the text where nothing may follow; the latter two matter in accepted strings only. -/
theorem agree_iff (psz : List UInt8) (fEnd : Bool) :
    Agree psz fEnd ↔
      beyondTable (behind psz) = false ∧
        (Accepted psz fEnd → sextets psz + (cbPads psz).toNat < 2 ^ 32 ∧
          (fEnd = false → behind psz = [])) := by
  constructor
  · intro agree
    have inside : beyondTable (behind psz) = false := by
      rw [← Bool.not_eq_true, ← decodedSize_fault]
      exact agree.sizeInside
    refine ⟨inside, fun accepted => ?_⟩
    obtain ⟨few, quads, valid⟩ := accepted
    set n := (sextets psz + (cbPads psz).toNat) / 4 * 3 - (cbPads psz).toNat with hn
    have enough : n + (cbPads psz).toNat = (sextets psz + (cbPads psz).toNat) / 4 * 3 := by omega
    have fine : Fine fEnd (cbPads psz) (behind psz) := ⟨inside, few, valid⟩
    have decoded := decode_ok.mpr ⟨⟨fine, rfl⟩, quads, enough, le_rfl⟩
    have sized := (agree.same n (behind psz)).mpr decoded
    have size := (decodedSize_ok.mp sized).2.2
    refine ⟨by omega, fun none => ?_⟩
    exact (oneText_iff psz).mp (agree.whole none n _ sized)
  · rintro ⟨inside, clear⟩
    refine ⟨?_, ?_, ?_, ?_⟩
    · rw [ne_eq, decodedSize_fault, inside]
      decide
    · intro cbData fault
      rw [decode_fault fault] at inside
      cases inside
    · intro n rest
      rw [decodedSize_ok, decode_ok]
      constructor
      · rintro ⟨fine, quads, size⟩
        have small := (clear ⟨fine.1.2.1, quads, fine.1.2.2⟩).1
        rw [Nat.mod_eq_of_lt small] at size
        exact ⟨fine, quads, size, le_rfl⟩
      · rintro ⟨fine, quads, size, -⟩
        have small := (clear ⟨fine.1.2.1, quads, fine.1.2.2⟩).1
        exact ⟨fine, quads, by rw [Nat.mod_eq_of_lt small, size]⟩
    · intro none n rest sized
      obtain ⟨fine, quads, -⟩ := decodedSize_ok.mp sized
      exact (oneText_iff psz).mpr ((clear ⟨fine.1.2.1, quads, fine.1.2.2⟩).2 none)

/-- A character that is not plain is looked up outside the table. -/
theorem not_agree_high : ¬ Agree [0xe9] true :=
  fun agree => agree.sizeInside rfl

end VBox.Runtime.Base64
