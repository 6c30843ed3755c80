import VBox.Runtime.Utf8Decode

/-!
UTF-8 and UTF-16.

As with UTF-8, a string is the memory from its first unit on, and to examine more is a fault.
-/

namespace VBox.Runtime.Utf16

open VBox.Runtime.Utf8

/-! ### From UTF-8 -/

inductive RecodeError where
  | invalid (rc : Utf8.Error)
  | cantRecodeAsUtf16
  deriving DecidableEq

/-- The units of a sequence of `cb` octets. -/
def countUnits (cb uc : Nat) : Except RecodeError Nat :=
  if cb ≤ 3 then .ok 1
  else if cb = 4 ∧ uc ≤ 0x10ffff then .ok 2
  else .error .cantRecodeAsUtf16

/-- `rtUtf8CalcUtf16Length`: the number of units, and of octets. -/
def rtUtf8CalcUtf16Length (psz : List UInt8) (cch : Nat) :
    Option (Except RecodeError (Nat × Nat)) :=
  validate .invalid countUnits psz cch

/-- The length by the first octet, whose encoding is not checked. -/
def recodeLength (uch : UInt8) : Nat :=
  if uch &&& 0xe0 = 0xc0 then 2
  else if uch &&& 0xf0 = 0xe0 then 3
  else 4

/-- The units of a surrogate pair. -/
def surrogates (uc : UInt32) : UInt16 × UInt16 :=
  (((0xd800 : UInt32) ||| ((uc - 0x10000) >>> 10)).toUInt16,
    ((0xdc00 : UInt32) ||| ((uc - 0x10000) &&& 0x3ff)).toUInt16)

/-- `rtUtf8RecodeAsUtf16`: the units stored, and whether they were all that there are. -/
def rtUtf8RecodeAsUtf16 (psz : List UInt8) (cch : UInt64) (cwc : Nat) :
    Option (List UInt16 × Bool) :=
  if cch = 0 then some ([], true)
  else
    match psz, cwc with
    | [], _ => none
    | uch :: _, 0 => some ([], uch = 0)
    | uch :: psz, cwc + 1 =>
      if uch = 0 then some ([], true)
      else if uch &&& 0x80 = 0 then
        (rtUtf8RecodeAsUtf16 psz (cch - 1) cwc).map fun rest => (uch.toUInt16 :: rest.1, rest.2)
      else if psz.length < recodeLength uch - 1 then none
      else
        let uc := codePoint (recodeLength uch) uch (psz.take (recodeLength uch - 1))
        if recodeLength uch < 4 then
          (rtUtf8RecodeAsUtf16 (psz.drop (recodeLength uch - 1))
            (cch - UInt64.ofNat (recodeLength uch)) cwc).map fun rest =>
              (UInt16.ofNat uc :: rest.1, rest.2)
        else
          match cwc with
          | 0 => some ([], false)
          | cwc + 1 =>
            (rtUtf8RecodeAsUtf16 (psz.drop 3) (cch - 4) cwc).map fun rest =>
              ((surrogates (UInt32.ofNat uc)).1 :: (surrogates (UInt32.ofNat uc)).2 :: rest.1,
                rest.2)

/-! ### To UTF-8 -/

inductive Error where
  | codePointEndianIndicator
  | invalidUtf16Encoding
  | bufferOverflow
  deriving DecidableEq

/-- The second unit of a pair. -/
def IsLow (wc : UInt16) : Prop := 0xdc00 ≤ wc ∧ wc ≤ 0xdfff

instance (wc : UInt16) : Decidable (IsLow wc) := inferInstanceAs (Decidable (_ ∧ _))

/-- `rtUtf16CalcUtf8Length`. -/
def rtUtf16CalcUtf8Length : List UInt16 → Nat → Option (Except Error Nat)
  | _, 0 => some (.ok 0)
  | [], _ + 1 => none
  | wc :: pwsz, cwc + 1 =>
    if wc = 0 then some (.ok 0)
    else if wc < 0xd800 ∨ 0xdfff < wc then
      if wc < 0x80 then (rtUtf16CalcUtf8Length pwsz cwc).map (·.map (1 + ·))
      else if wc < 0x800 then (rtUtf16CalcUtf8Length pwsz cwc).map (·.map (2 + ·))
      else if wc < 0xfffe then (rtUtf16CalcUtf8Length pwsz cwc).map (·.map (3 + ·))
      else some (.error .codePointEndianIndicator)
    else if 0xdc00 ≤ wc then some (.error .invalidUtf16Encoding)
    else
      match pwsz, cwc with
      | _, 0 => some (.error .invalidUtf16Encoding)
      | [], _ + 1 => none
      | wc :: pwsz, cwc + 1 =>
        if IsLow wc then (rtUtf16CalcUtf8Length pwsz cwc).map (·.map (4 + ·))
        else some (.error .invalidUtf16Encoding)

/-- The code point of a pair. -/
def pairCp (wc wc2 : UInt16) : Nat := 0x10000 + (wc.toNat % 0x400 * 0x400 + wc2.toNat % 0x400)

/-- The octets of a unit that is no surrogate. -/
def unitOctets (wc : Nat) : List UInt8 :=
  if wc < 0x80 then [UInt8.ofNat wc]
  else if wc < 0x800 then [UInt8.ofNat (0xc0 + wc / 64), continuation wc]
  else [UInt8.ofNat (0xe0 + wc / 64 ^ 2), continuation (wc / 64), continuation wc]

/-- The octets of a code point beyond the units. -/
def pairOctets (uc : Nat) : List UInt8 :=
  [UInt8.ofNat (0xf0 + uc / 64 ^ 3), continuation (uc / 64 ^ 2), continuation (uc / 64),
    continuation uc]

/-- `rtUtf16RecodeAsUtf8`: the octets stored, and the error that it stopped at. -/
def rtUtf16RecodeAsUtf8 : List UInt16 → Nat → Nat → Option (List UInt8 × Option Error)
  | _, 0, _ => some ([], none)
  | [], _ + 1, _ => none
  | wc :: pwsz, cwc + 1, cch =>
    if wc = 0 then some ([], none)
    else if wc < 0xd800 ∨ 0xdfff < wc then
      if wc < 0xfffe then
        if cch < (unitOctets wc.toNat).length then some ([], some .bufferOverflow)
        else
          (rtUtf16RecodeAsUtf8 pwsz cwc (cch - (unitOctets wc.toNat).length)).map fun rest =>
            (unitOctets wc.toNat ++ rest.1, rest.2)
      else some ([], some .codePointEndianIndicator)
    else if 0xdc00 ≤ wc then some ([], some .invalidUtf16Encoding)
    else
      match pwsz, cwc with
      | _, 0 => some ([], some .invalidUtf16Encoding)
      | [], _ + 1 => none
      | wc2 :: pwsz, cwc + 1 =>
        if IsLow wc2 then
          if cch < 4 then some ([], some .bufferOverflow)
          else
            (rtUtf16RecodeAsUtf8 pwsz cwc (cch - 4)).map fun rest =>
              (pairOctets (pairCp wc wc2) ++ rest.1, rest.2)
        else some ([], some .invalidUtf16Encoding)

/-! ### Units of code points -/

/-- A code point that UTF-16 can express. -/
def IsUnicode (uc : Nat) : Prop := IsCp uc ∧ uc ≤ 0x10ffff

/-- The units of a code point. -/
def units (uc : Nat) : List UInt16 :=
  if uc < 0x10000 then [UInt16.ofNat uc]
  else [(surrogates (UInt32.ofNat uc)).1, (surrogates (UInt32.ofNat uc)).2]

def putUnits (cps : List Nat) : List UInt16 := cps.flatMap units

/-- What there is before the limit and a terminator. -/
def text {α : Type} [BEq α] [Zero α] (limit : Nat) (memory : List α) : List α :=
  (memory.take limit).takeWhile (· != 0)

/-- The units of a pair by the bits of its code point. -/
theorem surrogates_toNat {uc : Nat} (least : 0x10000 ≤ uc) (most : uc ≤ 0x10ffff) :
    (surrogates (UInt32.ofNat uc)).1.toNat = 0xd800 + (uc - 0x10000) / 0x400 ∧
      (surrogates (UInt32.ofNat uc)).2.toNat = 0xdc00 + (uc - 0x10000) % 0x400 := by
  have value : (UInt32.ofNat uc).toNat = uc :=
    UInt32.toNat_ofNat_of_lt' (Nat.lt_of_le_of_lt most (by decide))
  have base : (UInt32.ofNat uc - 0x10000).toNat = uc - 0x10000 := by
    have big : (0x10000 : UInt32) ≤ UInt32.ofNat uc := by
      rw [UInt32.le_iff_toNat_le, value]
      exact least
    rw [UInt32.toNat_sub_of_le _ _ big, value]
    rfl
  have high : 0xd800 ||| (uc - 0x10000) / 0x400 = 0xd800 + (uc - 0x10000) / 0x400 :=
    (Nat.two_pow_add_eq_or_of_lt (i := 10) (b := (uc - 0x10000) / 0x400) (by omega) 0x36).symm
  have low : 0xdc00 ||| (uc - 0x10000) % 0x400 = 0xdc00 + (uc - 0x10000) % 0x400 :=
    (Nat.two_pow_add_eq_or_of_lt (i := 10) (b := (uc - 0x10000) % 0x400) (by omega) 0x37).symm
  constructor
  · rw [surrogates, UInt32.toNat_toUInt16, UInt32.toNat_or, UInt32.toNat_shiftRight, base,
      Nat.shiftRight_eq_div_pow]
    simp only [UInt32.reduceToNat, Nat.reduceMod, Nat.reducePow, high]
    omega
  · rw [surrogates, UInt32.toNat_toUInt16, UInt32.toNat_or, UInt32.toNat_and, base]
    simp only [UInt32.reduceToNat]
    rw [show (0x3ff : Nat) = 2 ^ 10 - 1 from rfl, Nat.and_two_pow_sub_one_eq_mod, low]
    omega

/-- A pair and its code point. -/
theorem pairCp_surrogates {uc : Nat} (least : 0x10000 ≤ uc) (most : uc ≤ 0x10ffff) :
    pairCp (surrogates (UInt32.ofNat uc)).1 (surrogates (UInt32.ofNat uc)).2 = uc := by
  obtain ⟨high, low⟩ := surrogates_toNat least most
  rw [pairCp, high, low]
  omega

theorem surrogates_pairCp {wc wc2 : UInt16} (surrogate : ¬ (wc < 0xd800 ∨ 0xdfff < wc))
    (first : ¬ 0xdc00 ≤ wc) (second : IsLow wc2) :
    0x10000 ≤ pairCp wc wc2 ∧ pairCp wc wc2 ≤ 0x10ffff ∧
      surrogates (UInt32.ofNat (pairCp wc wc2)) = (wc, wc2) := by
  have least : 0x10000 ≤ pairCp wc wc2 := Nat.le_add_right _ _
  have most : pairCp wc wc2 ≤ 0x10ffff := by
    unfold pairCp
    omega
  obtain ⟨high, low⟩ := surrogates_toNat least most
  simp only [IsLow, UInt16.le_iff_toNat_le, UInt16.lt_iff_toNat_lt, UInt16.reduceToNat] at *
  refine ⟨least, most, Prod.ext (UInt16.toNat_inj.mp ?_) (UInt16.toNat_inj.mp ?_)⟩
  · rw [high, pairCp]
    dsimp only
    omega
  · rw [low, pairCp]
    dsimp only
    omega

end VBox.Runtime.Utf16
