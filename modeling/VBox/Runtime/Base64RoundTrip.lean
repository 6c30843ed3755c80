import VBox.Runtime.Base64Language

/-!
Data that come back from Base64.

The encoder counts its buffer down, the length is rounded up, and the size of the text is found by
counting sextets. For no data at all the number of line ends wraps around, and from 2^32 characters
on, line ends aside, the sextets are not counted any more.
-/

namespace VBox.Runtime.Base64

open List

/-! ### Sextets of a trio -/

theorem forall_byte {p : UInt8 → Prop} (all : ∀ n : Fin 256, p (UInt8.ofNat n)) (ch : UInt8) :
    p ch := by
  simpa using all ⟨ch.toNat, UInt8.toNat_lt ch⟩

theorem entry_valToChar {val : UInt8} (small : val < 64) : entry (valToChar val) = val :=
  forall_byte (p := fun val => val < 64 → entry (valToChar val) = val) (by decide +kernel) val small

theorem isSextet_valToChar {val : UInt8} (small : val < 64) : IsSextet (valToChar val) := by
  rw [IsSextet, entry_valToChar small]
  exact small

section Bits

variable (u8A u8B u8C : UInt8)

/-- What the shifts and masks of the encoder leave of a byte, and what the decoder makes of it. -/
theorem sextet_bits (ch : UInt8) :
    (ch >>> 2 < 64 ∧ ch >>> 4 < 64 ∧ ch >>> 6 < 64 ∧ ch &&& (0x3f : UInt8) < 64) ∧
      ((ch >>> 2) <<< 2 ||| ((ch <<< 4) &&& (0x3f : UInt8)) >>> 4 = ch ∧ (ch >>> 4) >>> 4 = 0) ∧
      (((ch <<< 4) &&& (0x3f : UInt8)) <<< 4 = 0 ∧
        (ch >>> 4) <<< 4 ||| ((ch <<< 2) &&& (0x3f : UInt8)) >>> 2 = ch ∧ (ch >>> 6) >>> 2 = 0) ∧
      ((ch <<< 2) &&& (0x3f : UInt8)) <<< 6 = 0 ∧
        (ch >>> 6) <<< 6 ||| (ch &&& (0x3f : UInt8)) = ch := by
  revert ch
  refine forall_byte ?_
  decide +kernel

theorem shift_lt : u8A >>> 2 < 64 ∧ u8A >>> 4 < 64 ∧ u8A >>> 6 < 64 ∧ u8A &&& (0x3f : UInt8) < 64 :=
  (sextet_bits u8A).1

theorem joined_lt {low : UInt8} (small : low < 64) : joined u8A low < 64 := by
  rw [UInt8.lt_iff_toNat_lt] at small ⊢
  rw [joined, UInt8.toNat_or]
  have masked : (u8A &&& (0x3f : UInt8)).toNat < 2 ^ 6 :=
    UInt8.lt_iff_toNat_lt.mp (shift_lt u8A).2.2.2
  exact Nat.or_lt_two_pow masked small

/-- The first byte comes back out of two sextets. -/
theorem first_byte : (u8A >>> 2) <<< 2 ||| joined (u8A <<< 4) (u8B >>> 4) >>> 4 = u8A := by
  have high := (sextet_bits u8A).2.1.1
  have low := (sextet_bits u8B).2.1.2
  rw [joined, UInt8.shiftRight_or, low, UInt8.or_zero, high]

/-- The second byte comes back out of two sextets. -/
theorem second_byte :
    joined (u8A <<< 4) (u8B >>> 4) <<< 4 ||| joined (u8B <<< 2) (u8C >>> 6) >>> 2 = u8B := by
  have first := (sextet_bits u8A).2.2.1.1
  have second := (sextet_bits u8B).2.2.1.2.1
  have third := (sextet_bits u8C).2.2.1.2.2
  rw [joined, joined, UInt8.shiftLeft_or, UInt8.shiftRight_or, first, third, UInt8.zero_or,
    UInt8.or_zero, second]

/-- The third byte comes back out of two sextets. -/
theorem third_byte : joined (u8B <<< 2) (u8C >>> 6) <<< 6 ||| (u8C &&& (0x3f : UInt8)) = u8C := by
  have second := (sextet_bits u8B).2.2.2.1
  have third := (sextet_bits u8C).2.2.2.2
  rw [joined, UInt8.shiftLeft_or, second, UInt8.zero_or, third]

end Bits

/-! ### Decoding what has been encoded -/

section Decode

variable (fEnd : Bool) (u8Trio : Trio) {cbData : Nat} (u8A u8B u8C : UInt8) (rest : List UInt8)

/-- A sextet is added to the pending ones. -/
theorem decodeFrom_pending {c6Bits : Nat} (pending : c6Bits < 3) {val : UInt8} (small : val < 64) :
    decodeFrom fEnd c6Bits u8Trio cbData (valToChar val :: rest) =
      decodeFrom fEnd (c6Bits + 1) (addSextet c6Bits u8Trio val) cbData rest := by
  rw [decodeFrom, decodeLoop_pending _ _ _ _ (isSextet_valToChar small) pending,
    entry_valToChar small]
  rfl

/-- A trio is decoded before the rest. -/
theorem decodeFrom_trio (fits : 3 ≤ cbData) :
    decodeFrom fEnd 0 u8Trio cbData (encodeTrio u8A u8B u8C ++ rest) =
      (decodeFrom fEnd 0 ⟨u8A, u8B, u8C⟩ (cbData - 3) rest).map fun (data, psz) =>
        (u8A :: u8B :: u8C :: data, psz) := by
  obtain ⟨first, -, -, -⟩ := shift_lt u8A
  have second := joined_lt (u8A <<< 4) (shift_lt u8B).2.1
  have third := joined_lt (u8B <<< 2) (shift_lt u8C).2.2.1
  obtain ⟨-, -, -, fourth⟩ := shift_lt u8C
  simp only [encodeTrio, cons_append, nil_append]
  rw [decodeFrom_pending fEnd _ _ (by decide) first, decodeFrom_pending fEnd _ _ (by decide) second,
    decodeFrom_pending fEnd _ _ (by decide) third, decodeFrom,
    decodeLoop_flush _ _ _ (isSextet_valToChar fourth), if_neg (Nat.not_lt.mpr fits),
    entry_valToChar fourth]
  simp only [addSextet, first_byte, second_byte, third_byte]
  rw [decodeFrom]
  cases decodeLoop 0 ⟨u8A, u8B, u8C⟩ (cbData - 3) rest with
  | error failure => rfl
  | ok read => cases last : finish fEnd read.2 <;> simp [Except.map, bind, Except.bind, last]

/-- The end of a line is skipped. -/
theorem decodeFrom_eol (fCrLf : Bool) (c6Bits : Nat) :
    decodeFrom fEnd c6Bits u8Trio cbData (eol fCrLf ++ rest) =
      decodeFrom fEnd c6Bits u8Trio cbData rest := by
  have newline : IsSpace 0x0a := by decide
  have ret : IsSpace 0x0d := by decide
  cases fCrLf <;> simp [decodeFrom, eol, decodeLoop_space, newline, ret]

theorem finish_pads (pads : List UInt8) (few : pads = [chPad] ∨ pads = [chPad, chPad])
    (c6Bits : Nat) : finish fEnd ⟨c6Bits, u8Trio, cbData, base64Pad, pads⟩ =
      (finishTrio c6Bits u8Trio cbData (UInt32.ofNat pads.length)).map fun data => (data, []) := by
  have read : readPads fEnd base64Pad pads = .ok (UInt32.ofNat pads.length, []) := by
    obtain rfl | rfl := few <;> cases fEnd <;> rfl
  rw [finish, read]
  cases last : finishTrio c6Bits u8Trio cbData (UInt32.ofNat pads.length) <;>
    simp [Except.map, bind, Except.bind, last]

/-- The padding ends the text. -/
theorem decodeFrom_pads (pads : List UInt8) (few : pads = [chPad] ∨ pads = [chPad, chPad])
    (c6Bits : Nat) : decodeFrom fEnd c6Bits u8Trio cbData pads =
      (finishTrio c6Bits u8Trio cbData (UInt32.ofNat pads.length)).map fun data => (data, []) := by
  have stops : decodeLoop c6Bits u8Trio cbData pads =
      .ok ([], ⟨c6Bits, u8Trio, cbData, base64Pad, pads⟩) := by
    obtain rfl | rfl := few <;>
      exact decodeLoop_stop c6Bits u8Trio cbData _ (by decide) (by decide)
  rw [decodeFrom, stops]
  change (finish fEnd ⟨c6Bits, u8Trio, cbData, base64Pad, pads⟩).bind
    (fun (last, psz) => .ok ([] ++ last, psz)) = _
  rw [finish_pads fEnd u8Trio pads few]
  cases finishTrio c6Bits u8Trio cbData (UInt32.ofNat pads.length) <;> rfl

/-- An odd byte is decoded at the end. -/
theorem decodeFrom_one (fits : 1 ≤ cbData) : decodeFrom fEnd 0 u8Trio cbData
      [valToChar (u8A >>> 2), valToChar ((u8A <<< 4) &&& (0x3f : UInt8)), chPad, chPad] =
      .ok ([u8A], []) := by
  have byte := first_byte u8A 0
  simp only [joined, UInt8.zero_shiftRight, UInt8.or_zero] at byte
  have last : finishTrio 2 ⟨u8A, ((u8A <<< 4) &&& (0x3f : UInt8)) <<< 4, u8Trio.b2⟩ cbData
      (UInt32.ofNat 2) = .ok [u8A] := if_neg (Nat.not_lt.mpr fits)
  rw [decodeFrom_pending fEnd _ _ (by decide) (shift_lt u8A).1,
    decodeFrom_pending fEnd _ _ (by decide) (shift_lt (u8A <<< 4)).2.2.2,
    decodeFrom_pads fEnd _ _ (.inr rfl)]
  simp only [addSextet, byte]
  exact congrArg (Except.map _) last

/-- Two odd bytes are decoded at the end. -/
theorem decodeFrom_two (fits : 2 ≤ cbData) : decodeFrom fEnd 0 u8Trio cbData
      [valToChar (u8A >>> 2), valToChar (joined (u8A <<< 4) (u8B >>> 4)),
        valToChar ((u8B <<< 2) &&& (0x3f : UInt8)), chPad] = .ok ([u8A, u8B], []) := by
  have first := first_byte u8A u8B
  have second := second_byte u8A u8B 0
  simp only [joined, UInt8.zero_shiftRight, UInt8.or_zero] at first second
  have last : finishTrio 3 ⟨u8A, u8B, ((u8B <<< 2) &&& (0x3f : UInt8)) <<< 6⟩ cbData
      (UInt32.ofNat 1) = .ok [u8A, u8B] := if_neg (Nat.not_lt.mpr fits)
  rw [decodeFrom_pending fEnd _ _ (by decide) (shift_lt u8A).1,
    decodeFrom_pending fEnd _ _ (by decide) (joined_lt (u8A <<< 4) (shift_lt u8B).2.1),
    decodeFrom_pending fEnd _ _ (by decide) (shift_lt (u8B <<< 2)).2.2.2,
    decodeFrom_pads fEnd _ _ (.inl rfl)]
  simp only [addSextet, joined, first, second]
  exact congrArg (Except.map _) last

end Decode

/-- What the encoder writes is decoded to the data. -/
theorem decodeFrom_encodeLoop (fEnd fCrLf : Bool) {cbBuf cbLineFeed : UInt64}
    {data text : List UInt8} (encoded : encodeLoop fCrLf cbBuf cbLineFeed data = .ok text)
    (u8Trio : Trio) {cbData : Nat} (fits : data.length ≤ cbData) :
    decodeFrom fEnd 0 u8Trio cbData text = .ok (data, []) := by
  fun_induction encodeLoop fCrLf cbBuf cbLineFeed data generalizing text u8Trio cbData with
  | case1 | case2 | case5 | case7 => cases encoded
  | case3 cbBuf cbLineFeed u8A u8B u8C pbSrc room left feeds more after =>
    rename_i ih
    simp only [length_cons] at fits
    cases rest : encodeLoop fCrLf after (after - lineLen) pbSrc with
    | error failure =>
      rw [rest] at encoded
      cases encoded
    | ok tail =>
      rw [rest] at encoded
      obtain rfl := Except.ok.inj encoded
      dsimp only
      have decoded := ih rest ⟨u8A, u8B, u8C⟩ (show pbSrc.length ≤ cbData - 3 by omega)
      rw [append_assoc, decodeFrom_trio fEnd u8Trio u8A u8B u8C _ (by omega),
        decodeFrom_eol, decoded]
      rfl
  | case4 cbBuf cbLineFeed u8A u8B u8C pbSrc room left goesOn =>
    rename_i ih
    simp only [length_cons] at fits
    cases rest : encodeLoop fCrLf left cbLineFeed pbSrc with
    | error failure =>
      rw [rest] at encoded
      cases encoded
    | ok tail =>
      rw [rest] at encoded
      obtain rfl := Except.ok.inj encoded
      dsimp only
      have decoded := ih rest ⟨u8A, u8B, u8C⟩ (show pbSrc.length ≤ cbData - 3 by omega)
      rw [decodeFrom_trio fEnd u8Trio u8A u8B u8C _ (by omega), decoded]
      rfl
  | case6 cbBuf cbLineFeed u8A u8B room =>
    obtain rfl := Except.ok.inj encoded
    exact decodeFrom_two fEnd u8Trio u8A u8B fits
  | case8 cbBuf cbLineFeed u8A room =>
    obtain rfl := Except.ok.inj encoded
    exact decodeFrom_one fEnd u8Trio u8A fits
  | case9 =>
    obtain rfl := Except.ok.inj encoded
    cases fEnd <;> rfl

/-! ### The length of the text -/

/-- The characters that so many bytes take from a place in a line on, four to a group. -/
def textLength (eolLen groups cbData : Nat) : Nat :=
  if cbData = 0 then 0
  else (cbData + 2) / 3 * 4 + (groups + (cbData + 2) / 3 - 1) / 16 * eolLen

theorem eol_length (fCrLf : Bool) : (eol fCrLf).length = (eolSize fCrLf).toNat := by
  cases fCrLf <;> rfl

theorem eolSize_cases (fCrLf : Bool) : (eolSize fCrLf).toNat = 1 ∨ (eolSize fCrLf).toNat = 2 := by
  cases fCrLf
  · exact .inl rfl
  · exact .inr rfl

/-- A trio takes a group, and a line end with it where the line is full and data follow. -/
theorem textLength_trio {eolLen groups cbData : Nat} (inLine : groups < 16) :
    textLength eolLen groups (cbData + 3) =
      if groups = 15 ∧ cbData ≠ 0 then 4 + eolLen + textLength eolLen 0 cbData
      else 4 + textLength eolLen (groups + 1) cbData := by
  have quotient : (cbData + 3 + 2) / 3 = (cbData + 2) / 3 + 1 := by omega
  unfold textLength
  rw [if_neg (Nat.succ_ne_zero _), quotient]
  by_cases none : cbData = 0
  · subst none
    have last : (groups + ((0 + 2) / 3 + 1) - 1) / 16 = 0 := by omega
    rw [last]
    simp
  have more : 1 ≤ (cbData + 2) / 3 := by omega
  by_cases full : groups = 15
  · have lines : (groups + ((cbData + 2) / 3 + 1) - 1) / 16 =
        1 + (0 + (cbData + 2) / 3 - 1) / 16 := by omega
    rw [if_pos ⟨full, none⟩, if_neg none, lines, Nat.add_mul 1]
    omega
  · have lines : (groups + ((cbData + 2) / 3 + 1) - 1) / 16 =
        (groups + 1 + (cbData + 2) / 3 - 1) / 16 := by omega
    rw [if_neg fun h => full h.1, if_neg none, lines]
    omega

/-- The line is full just where the countdown says so. -/
theorem lineFeed_iff {cbBuf : UInt64} {groups : Nat} (inLine : groups < 16) :
    cbBuf - 4 = cbBuf - UInt64.ofNat (64 - 4 * groups) ↔ groups = 15 := by
  rw [UInt64.sub_right_inj, ← UInt64.toNat_inj, UInt64.toNat_ofNat']
  simp only [UInt64.reduceToNat]
  omega

theorem toNat_sub {a b : UInt64} (le : b.toNat ≤ a.toNat) : (a - b).toNat = a.toNat - b.toNat :=
  UInt64.toNat_sub_of_le _ _ (UInt64.le_iff_toNat_le.mpr le)

/-- The encoder writes as many characters as the text takes, if they just fit. -/
theorem encodeLoop_length (fCrLf : Bool) {cbBuf cbLineFeed : UInt64} {data : List UInt8}
    {groups : Nat} (inLine : groups < 16)
    (room : cbBuf.toNat = textLength (eolSize fCrLf).toNat groups data.length + 1)
    (feed : cbLineFeed = cbBuf - UInt64.ofNat (64 - 4 * groups)) :
    ∃ text, encodeLoop fCrLf cbBuf cbLineFeed data = .ok text ∧
      text.length = textLength (eolSize fCrLf).toNat groups data.length := by
  have four {cb : UInt64} (enough : 5 ≤ cb.toNat) : ¬ cb < 4 + 1 := by
    simpa [UInt64.lt_iff_toNat_lt] using enough
  match data with
  | [] => exact ⟨[], rfl, rfl⟩
  | [u8A] =>
    have length : textLength (eolSize fCrLf).toNat groups 1 = 4 := by
      have last : (groups + (1 + 2) / 3 - 1) / 16 = 0 := by omega
      rw [textLength, if_neg (by decide), last]
      simp
    rw [length_singleton, length] at room ⊢
    exact ⟨_, if_neg (four (by omega)), rfl⟩
  | [u8A, u8B] =>
    have length : textLength (eolSize fCrLf).toNat groups 2 = 4 := by
      have last : (groups + (2 + 2) / 3 - 1) / 16 = 0 := by omega
      rw [textLength, if_neg (by decide), last]
      simp
    simp only [length_cons, length_nil] at room ⊢
    rw [length] at room ⊢
    exact ⟨_, if_neg (four (by omega)), rfl⟩
  | u8A :: u8B :: u8C :: pbSrc =>
    simp only [length_cons] at room ⊢
    rw [textLength_trio inLine] at room ⊢
    have enough : 5 ≤ cbBuf.toNat := by split at room <;> omega
    have left : (cbBuf - 4).toNat = cbBuf.toNat - 4 := toNat_sub (Nat.le_of_succ_le enough)
    subst feed
    rw [encodeLoop, if_neg (four enough)]
    simp only [lineFeed_iff inLine, ne_eq, length_eq_zero_iff] at room ⊢
    by_cases full : groups = 15 ∧ ¬ pbSrc = []
    · rw [if_pos full] at room ⊢
      have size : (eolSize fCrLf + 1).toNat = (eolSize fCrLf).toNat + 1 := by cases fCrLf <;> rfl
      have after : (cbBuf - 4 - eolSize fCrLf).toNat =
          textLength (eolSize fCrLf).toNat 0 pbSrc.length + 1 := by
        rw [toNat_sub (by omega)]
        omega
      have more : ¬ cbBuf - 4 < eolSize fCrLf + 1 := by
        rw [UInt64.lt_iff_toNat_lt, size]
        omega
      obtain ⟨text, rest, length⟩ := encodeLoop_length fCrLf (show 0 < 16 by decide) after rfl
      have tail : encodeLoop fCrLf (cbBuf - 4 - eolSize fCrLf)
          (cbBuf - 4 - eolSize fCrLf - lineLen) pbSrc = .ok text := rest
      rw [if_pos full, if_neg more, tail]
      refine ⟨_, rfl, ?_⟩
      simp only [length_append, length, encodeTrio, length_cons, length_nil, eol_length]
    · rw [if_neg full] at room ⊢
      rw [if_neg full]
      by_cases none : pbSrc = []
      · subst none
        exact ⟨_, rfl, rfl⟩
      have open_ : groups ≠ 15 := fun h => full ⟨h, none⟩
      have after : (cbBuf - 4).toNat =
          textLength (eolSize fCrLf).toNat (groups + 1) pbSrc.length + 1 := by omega
      have feed : cbBuf - UInt64.ofNat (64 - 4 * groups) =
          cbBuf - 4 - UInt64.ofNat (64 - 4 * (groups + 1)) := by
        apply UInt64.toNat_inj.mp
        simp only [UInt64.toNat_sub, UInt64.toNat_ofNat', UInt64.reduceToNat]
        omega
      obtain ⟨text, rest, length⟩ :=
        encodeLoop_length fCrLf (show groups + 1 < 16 by omega) after feed
      rw [rest]
      refine ⟨_, rfl, ?_⟩
      simp only [length_append, length, encodeTrio, length_cons, length_nil]

/-- Each length that is a multiple of eight is rounded up. -/
theorem roundUp_eq {cch : Nat} (bytes : cch % 8 = 0) (small : cch + 16 < 2 ^ 64) :
    (roundUp 2 (UInt64.ofNat cch)).toNat = (cch + 23) / 24 * 24 := by
  have whole (n : Nat) (fits : n < 2 ^ 64) : UInt64.ofNat n % 24 = 0 ↔ n % 24 = 0 := by
    rw [← UInt64.toNat_inj, UInt64.toNat_mod, UInt64.toNat_ofNat', Nat.mod_eq_of_lt fits]
    rfl
  have add (n : Nat) : UInt64.ofNat n + 8 = UInt64.ofNat (n + 8) := (UInt64.ofNat_add n 8).symm
  simp only [roundUp, add, whole cch (by omega), whole (cch + 8) (by omega)]
  split_ifs <;> rw [UInt64.toNat_ofNat'] <;> omega

/-- The length is that of the text, but for no data. -/
theorem encodedLength_eq (fCrLf : Bool) {cbData : Nat} (some : 0 < cbData)
    (small : cbData < 2 ^ 32) : (rtBase64EncodedLength fCrLf (UInt64.ofNat cbData)).toNat =
      textLength (eolSize fCrLf).toNat 0 cbData := by
  have bits : UInt64.ofNat cbData * 8 = UInt64.ofNat (cbData * 8) :=
    (UInt64.ofNat_mul cbData 8).symm
  have rounded := roundUp_eq (show cbData * 8 % 8 = 0 by omega) (by omega)
  have groups : (cbData * 8 + 23) / 24 = (cbData + 2) / 3 := by omega
  rw [groups] at rounded
  rw [rtBase64EncodedLength, bits, textLength, if_neg (by omega)]
  set cch := roundUp 2 (UInt64.ofNat (cbData * 8)) / 6 with hcch
  have chars : cch.toNat = (cbData + 2) / 3 * 4 := by
    rw [hcch, UInt64.toNat_div, rounded]
    simp only [UInt64.reduceToNat]
    omega
  have before : (cch - 1).toNat = cch.toNat - 1 := toNat_sub (by
    simp only [UInt64.reduceToNat]
    omega)
  have lines : ((cch - 1) / lineLen).toNat = (0 + (cbData + 2) / 3 - 1) / 16 := by
    rw [UInt64.toNat_div, before, lineLen]
    simp only [UInt64.reduceToNat]
    omega
  rw [UInt64.toNat_add, UInt64.toNat_mul, lines, chars]
  obtain one | two := eolSize_cases fCrLf
  · rw [one]
    omega
  · rw [two]
    omega

/-! ### Round trips -/

/-- Data are encoded into a buffer of the right size, and the text gives the size and the data
back, whether or not the caller asks for the rest. -/
def ComesBack (fCrLf : Bool) (data : List UInt8) : Prop :=
  let cch := rtBase64EncodedLength fCrLf (UInt64.ofNat data.length)
  ∃ text, rtBase64Encode fCrLf data (cch + 1) = .ok text ∧ text.length = cch.toNat ∧
    ∀ fEnd, rtBase64DecodedSize text fEnd = .ok (data.length, []) ∧
      rtBase64Decode text data.length fEnd = .ok (data, [])

/-- Just the data that are not empty and take fewer than 2^32 characters, line ends aside, come
back. -/
theorem comesBack_iff (fCrLf : Bool) (data : List UInt8) :
    ComesBack fCrLf data ↔ 0 < data.length ∧ (data.length + 2) / 3 * 4 < 2 ^ 32 := by
  constructor
  · rintro ⟨text, encoded, length, back⟩
    obtain ⟨⟨⟨-, few, -⟩, -⟩, whole, size⟩ := decodedSize_ok.mp (back true).1
    refine ⟨Nat.pos_of_ne_zero fun none => ?_, by omega⟩
    obtain rfl := length_eq_zero_iff.mp none
    obtain rfl := Except.ok.inj encoded
    cases fCrLf <;> exact absurd length (by decide)
  · rintro ⟨some, small⟩
    have length := encodedLength_eq fCrLf some (by omega)
    have bound : textLength (eolSize fCrLf).toNat 0 data.length < 2 ^ 62 := by
      obtain one | two := eolSize_cases fCrLf
      · rw [one, textLength, if_neg (by omega)]
        omega
      · rw [two, textLength, if_neg (by omega)]
        omega
    have room : (rtBase64EncodedLength fCrLf (UInt64.ofNat data.length) + 1).toNat =
        textLength (eolSize fCrLf).toNat 0 data.length + 1 := by
      rw [UInt64.toNat_add, length]
      simp only [UInt64.reduceToNat]
      omega
    obtain ⟨text, encoded, chars⟩ := encodeLoop_length fCrLf (show 0 < 16 by decide) room rfl
    refine ⟨text, encoded, chars.trans length.symm, fun fEnd => ?_⟩
    have decoded : rtBase64Decode text data.length fEnd = .ok (data, []) :=
      decodeFrom_encodeLoop fEnd fCrLf encoded _ le_rfl
    obtain ⟨fine, whole, size, -⟩ := decode_ok.mp ⟨data, decoded, rfl⟩
    have few := fine.1.2.1
    refine ⟨decodedSize_ok.mpr ⟨fine, whole, ?_⟩, decoded⟩
    rw [Nat.mod_eq_of_lt (by omega), size]

/-- No data do not come back. -/
theorem not_comesBack_nil : ¬ ComesBack false [] := by
  rintro ⟨text, encoded, length, -⟩
  obtain rfl := Except.ok.inj encoded
  exact absurd length (by decide)

end VBox.Runtime.Base64
