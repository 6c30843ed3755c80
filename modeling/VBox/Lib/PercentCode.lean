/-!
Percent encoding.

A text stands for its bytes, but for the escapes in it, each of them a `%` and the two hexadecimal
digits of the byte that it stands for.
-/

namespace VBox.Lib.PercentCode

open List

def percent : UInt8 := 0x25

/-- A hexadecimal digit in capitals. -/
def hexDigit (d : UInt8) : UInt8 := if d < 10 then 0x30 + d else 0x37 + d

/-- The value of a hexadecimal digit. -/
def hexValue (ch : UInt8) : Option UInt8 :=
  if 0x30 ≤ ch ∧ ch ≤ 0x39 then some (ch - 0x30)
  else if 0x41 ≤ ch ∧ ch ≤ 0x46 then some (ch - 0x37)
  else if 0x61 ≤ ch ∧ ch ≤ 0x66 then some (ch - 0x57)
  else none

/-- The byte that two digits denote. -/
def byteOf (hi lo : UInt8) : Option UInt8 :=
  match hexValue hi, hexValue lo with
  | some hi, some lo => some (16 * hi + lo)
  | _, _ => none

/-- What a text stands for, if each `%` in it begins an escape. -/
def decode : List UInt8 → Option (List UInt8)
  | [] => some []
  | ch :: text =>
    if ch = percent then
      match text with
      | hi :: lo :: text =>
        match byteOf hi lo, decode text with
        | some byte, some out => some (byte :: out)
        | _, _ => none
      | _ => none
    else (decode text).map (ch :: ·)

/-- The escape of a byte. -/
def escapeOf (ch : UInt8) : List UInt8 := [percent, hexDigit (ch / 16), hexDigit (ch % 16)]

/-- A text with some of its characters escaped. -/
def encode (excluded : UInt8 → Bool) : List UInt8 → List UInt8
  | [] => []
  | ch :: text => (if excluded ch then escapeOf ch else [ch]) ++ encode excluded text

variable {excluded : UInt8 → Bool}

/-! ### Decoding -/

theorem decode_plain {ch : UInt8} (plain : ch ≠ percent) (text : List UInt8) :
    decode (ch :: text) = (decode text).map (ch :: ·) := by
  rw [decode.eq_def]
  exact if_neg plain

theorem decode_escape (hi lo : UInt8) (text : List UInt8) :
    decode (percent :: hi :: lo :: text) =
      match byteOf hi lo, decode text with
      | some byte, some out => some (byte :: out)
      | _, _ => none := by
  rw [decode.eq_def]
  exact if_pos rfl

/-- Induction over a text, escape by escape; the last `%` may be cut off. -/
theorem text_induction {motive : List UInt8 → Prop} (nil : motive [])
    (plain : ∀ ch text, ch ≠ percent → motive text → motive (ch :: text))
    (escape : ∀ hi lo text, motive text → motive (percent :: hi :: lo :: text))
    (cutLow : ∀ hi, motive [percent, hi]) (cutBoth : motive [percent]) :
    ∀ text, motive text
  | [] => nil
  | ch :: text => by
    by_cases h : ch = percent
    · subst h
      match text with
      | [] => exact cutBoth
      | [hi] => exact cutLow hi
      | hi :: lo :: text =>
        exact escape hi lo text (text_induction nil plain escape cutLow cutBoth text)
    · exact plain ch text h (text_induction nil plain escape cutLow cutBoth text)

/-! ### Digits and escapes -/

theorem byteOf_hexDigit (ch : UInt8) :
    byteOf (hexDigit (ch / 16)) (hexDigit (ch % 16)) = some ch := by
  have all : ∀ n : Fin 256, byteOf (hexDigit (UInt8.ofNat n / 16)) (hexDigit (UInt8.ofNat n % 16)) =
      some (UInt8.ofNat n) := by decide +kernel
  simpa using all ⟨ch.toNat, UInt8.toNat_lt ch⟩

/-- An escape is made of `%` and of digits and capital letters. -/
theorem mem_escapeOf {ch c : UInt8} (mem : c ∈ escapeOf ch) :
    c = percent ∨ (0x30 ≤ c ∧ c ≤ 0x39) ∨ (0x41 ≤ c ∧ c ≤ 0x46) := by
  have all : ∀ n : Fin 16, (0x30 ≤ hexDigit (UInt8.ofNat n) ∧ hexDigit (UInt8.ofNat n) ≤ 0x39) ∨
      (0x41 ≤ hexDigit (UInt8.ofNat n) ∧ hexDigit (UInt8.ofNat n) ≤ 0x46) := by decide +kernel
  have digit : ∀ d : UInt8, d.toNat < 16 → (0x30 ≤ hexDigit d ∧ hexDigit d ≤ 0x39) ∨
      (0x41 ≤ hexDigit d ∧ hexDigit d ≤ 0x46) := by
    intro d small
    simpa using all ⟨d.toNat, small⟩
  simp only [escapeOf, mem_cons, not_mem_nil, or_false] at mem
  obtain rfl | rfl | rfl := mem
  · exact .inl rfl
  · refine .inr (digit _ ?_)
    have := UInt8.toNat_lt ch
    simp only [UInt8.toNat_div, UInt8.reduceToNat]
    omega
  · refine .inr (digit _ ?_)
    simp only [UInt8.toNat_mod, UInt8.reduceToNat]
    omega

/-! ### Encoding -/

theorem encode_cons (ch : UInt8) (text : List UInt8) : encode excluded (ch :: text) =
      (if excluded ch then escapeOf ch else [ch]) ++ encode excluded text := rfl

/-- A text with all its `%` escaped is what its encoding stands for. -/
theorem decode_encode (escaped : excluded percent) (text : List UInt8) :
    decode (encode excluded text) = some text := by
  induction text with
  | nil => rfl
  | cons ch text ih =>
    rw [encode_cons]
    by_cases exc : excluded ch
    · rw [if_pos exc, escapeOf, cons_append, cons_append, cons_append,
        nil_append, decode_escape, byteOf_hexDigit, ih]
    · have plain : ch ≠ percent := fun h => exc (h ▸ escaped)
      rw [if_neg exc, cons_append, nil_append, decode_plain plain, ih, Option.map_some]

end VBox.Lib.PercentCode
