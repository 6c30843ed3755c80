import VBox.Lib.PercentCode
import VBox.Runtime.StrToNum
import Mathlib.Data.List.TakeWhile

/-!
Percent decoding of URIs.

A terminated string is the list of its characters. The memory goes on behind the terminator, and
the characters read at or behind the limit are counted.
-/

namespace VBox.Runtime.Uri

open VBox.Lib.PercentCode Option
open VBox.Runtime.StrToNum

/-- The characters of a string up to a limit; `RTSTR_MAX` is none. -/
def limited (pszString : List UInt8) : Option Nat → List UInt8
  | none => pszString
  | some cchMax => pszString.take cchMax

/-- The memory from the start of a string on, with what is behind the terminator. -/
def memory (pszString : List UInt8) (behind : Nat → UInt8) (i : Nat) : UInt8 :=
  if i < pszString.length then pszString.getD i 0
  else if i = pszString.length then 0
  else behind (i - pszString.length - 1)

/-- The characters of a buffer up to the first terminator. -/
def terminated (buf : List UInt8) : List UInt8 := buf.takeWhile (· ≠ 0)

/-- The outcome of the loop: what is in the new buffer, unless a conversion failed, and how many
characters have been read at or behind the limit. -/
structure Outcome where
  pszNew : Option (List UInt8)
  overrun : Nat
  deriving DecidableEq

namespace Outcome

/-- A character is stored first. -/
def store (ch : UInt8) (outcome : Outcome) : Outcome :=
  { outcome with pszNew := outcome.pszNew.map (ch :: ·) }

end Outcome

/-- The conversion of the two characters behind a `%`, with the rest of the loop. -/
def decodeNumber (c0 c1 : UInt8) (overrun : Nat) (loop : Outcome) : Outcome :=
  let (rc, u8) := rtStrToUInt8Ex (terminated [c0, c1]) 16
  if rc.isSuccess then { loop.store u8 with overrun := overrun + loop.overrun }
  else ⟨none, overrun⟩

/-- The loop of `rtUriPercentDecodeN` over the characters up to the limit, with the memory from
the limit on. -/
def decodeLoop (limit : Nat → UInt8) : List UInt8 → Outcome
  | [] => ⟨some [], 0⟩
  | ch :: rest =>
    if ch = percent then
      match rest with
      | c0 :: c1 :: rest => decodeNumber c0 c1 0 (decodeLoop limit rest)
      | [c0] => decodeNumber c0 (limit 0) 1 ⟨some [], 0⟩
      | [] => decodeNumber (limit 0) (limit 1) 2 ⟨some [], 0⟩
    else (decodeLoop limit rest).store ch

/-- `rtUriPercentDecodeN`: the new string, if any, and the characters read at or behind the
limit. -/
def rtUriPercentDecodeN (pszString : List UInt8) (behind : Nat → UInt8) (cchMax : Option Nat) :
    Outcome :=
  let range := limited pszString cchMax
  let outcome := decodeLoop (fun i => memory pszString behind (range.length + i)) range
  { outcome with pszNew := outcome.pszNew.map terminated }

/-! ### Strict decoding -/

/-- The two characters behind a `%` are taken for a number. -/
def Taken (c0 c1 : UInt8) : Prop := HasDigits (terminated [c0, c1])

instance (c0 c1 : UInt8) : Decidable (Taken c0 c1) := inferInstanceAs (Decidable (HasDigits _))

/-- The scan comes to a `%` with two characters behind it that are no number. -/
def Stops : List UInt8 → Prop
  | [] => False
  | ch :: rest =>
    if ch = percent then
      match rest with
      | c0 :: c1 :: rest => ¬ Taken c0 c1 ∨ Stops rest
      | _ => False
    else Stops rest

/-- Nothing is read at or behind the limit, and what is returned is the strict decoding. -/
def Strict (range : List UInt8) (outcome : Outcome) : Prop :=
  outcome.overrun = 0 ∧ ∀ psz, outcome.pszNew = some psz → decode range = some psz

/-! ### One step of the scan -/

variable {ch : UInt8}

section Steps

variable (limit : Nat → UInt8) (c0 c1 : UInt8) (rest : List UInt8)

theorem decodeLoop_plain (plain : ch ≠ percent) :
    decodeLoop limit (ch :: rest) = (decodeLoop limit rest).store ch := by
  rw [decodeLoop.eq_def]
  exact if_neg plain

theorem decodeLoop_escape : decodeLoop limit (percent :: c0 :: c1 :: rest) =
      decodeNumber c0 c1 0 (decodeLoop limit rest) := by
  rw [decodeLoop.eq_def]
  exact if_pos rfl

theorem decodeLoop_cutLow :
    decodeLoop limit [percent, c0] = decodeNumber c0 (limit 0) 1 ⟨some [], 0⟩ := by
  rw [decodeLoop.eq_def]
  exact if_pos rfl

theorem decodeLoop_cutBoth :
    decodeLoop limit [percent] = decodeNumber (limit 0) (limit 1) 2 ⟨some [], 0⟩ := by
  rw [decodeLoop.eq_def]
  exact if_pos rfl

theorem stops_plain (plain : ch ≠ percent) : Stops (ch :: rest) ↔ Stops rest := by
  rw [Stops.eq_def]
  exact iff_of_eq (if_neg plain)

theorem stops_escape : Stops (percent :: c0 :: c1 :: rest) ↔ ¬ Taken c0 c1 ∨ Stops rest := by
  rw [Stops.eq_def]
  exact iff_of_eq (if_pos rfl)

theorem decodeNumber_taken (taken : Taken c0 c1) (overrun : Nat) (loop : Outcome) :
    decodeNumber c0 c1 overrun loop =
      ⟨loop.pszNew.map ((rtStrToUInt8Ex (terminated [c0, c1]) 16).2 :: ·),
        overrun + loop.overrun⟩ := by
  have success := (rtStrToUInt8Ex_isSuccess _).mpr taken
  simp only [decodeNumber, success, if_true, Outcome.store]

theorem decodeNumber_refused (refused : ¬ Taken c0 c1) (overrun : Nat) (loop : Outcome) :
    decodeNumber c0 c1 overrun loop = ⟨none, overrun⟩ := by
  have failure : ¬ _ = true := fun h => refused ((rtStrToUInt8Ex_isSuccess _).mp h)
  simp [decodeNumber, failure]

/-- Whatever it makes of them, characters read behind the limit stay on the account. -/
theorem overrun_le_decodeNumber (overrun : Nat) (loop : Outcome) :
    overrun ≤ (decodeNumber c0 c1 overrun loop).overrun := by
  by_cases taken : Taken c0 c1
  · rw [decodeNumber_taken c0 c1 taken]
    exact Nat.le_add_right _ _
  · rw [decodeNumber_refused c0 c1 taken]

end Steps

/-! ### Hexadecimal digits -/

theorem hexValue_eq (ch : UInt8) :
    hexValue ch = if IsHex ch then some (UInt8.ofNat (digit ch)) else none := by
  have all : ∀ n : Fin 256, hexValue (UInt8.ofNat n) =
      if IsHex (UInt8.ofNat n) then some (UInt8.ofNat (digit (UInt8.ofNat n))) else none := by
    decide +kernel
  simpa using all ⟨ch.toNat, UInt8.toNat_lt ch⟩

theorem isHex_ne_zero (hex : IsHex ch) : ch ≠ 0 :=
  fun zero => absurd (zero ▸ hex) (by decide)

/-- Two hexadecimal digits are taken for the number that they denote. -/
theorem byteOf_eq_some {c0 c1 byte : UInt8} (denotes : byteOf c0 c1 = some byte) :
    Taken c0 c1 ∧ (rtStrToUInt8Ex (terminated [c0, c1]) 16).2 = byte := by
  unfold byteOf at denotes
  rw [hexValue_eq, hexValue_eq] at denotes
  split_ifs at denotes with hex0 hex1
  have whole : terminated [c0, c1] = [c0, c1] := by
    simp [terminated, isHex_ne_zero hex0, isHex_ne_zero hex1]
  refine ⟨?_, ?_⟩
  · rw [Taken, whole, HasDigits, skipSigns_hex hex0]
    exact hex0
  · rw [whole, rtStrToUInt8Ex_digits hex0 hex1]
    exact some.inj denotes

/-! ### Whole scans -/

variable {range : List UInt8}

/-- A scan that stops fails, and has read nothing behind the limit. -/
theorem decodeLoop_of_stops (limit : Nat → UInt8) :
    Stops range → decodeLoop limit range = ⟨none, 0⟩ := by
  induction range using text_induction with
  | nil => exact False.elim
  | plain ch rest plain ih =>
    intro stops
    rw [decodeLoop_plain limit rest plain, ih ((stops_plain rest plain).mp stops)]
    rfl
  | escape c0 c1 rest ih =>
    intro stops
    rw [decodeLoop_escape]
    by_cases taken : Taken c0 c1
    · have later := ((stops_escape c0 c1 rest).mp stops).resolve_left (not_not_intro taken)
      rw [decodeNumber_taken c0 c1 taken, ih later]
      rfl
    · exact decodeNumber_refused c0 c1 taken _ _
  | cutLow c0 => exact fun stops => stops.elim
  | cutBoth => exact fun stops => stops.elim

/-- A text that is well encoded is decoded within the limit. -/
theorem decodeLoop_of_decode (limit : Nat → UInt8) :
    ∀ {out}, decode range = some out → decodeLoop limit range = ⟨some out, 0⟩ := by
  induction range using text_induction with
  | nil =>
    intro out decoded
    cases decoded
    rfl
  | plain ch rest plain ih =>
    intro out decoded
    rw [decode_plain plain, map_eq_some_iff] at decoded
    obtain ⟨out, decoded, rfl⟩ := decoded
    rw [decodeLoop_plain limit rest plain, ih decoded]
    rfl
  | escape c0 c1 rest ih =>
    intro out decoded
    rw [decode_escape] at decoded
    split at decoded
    · rename_i byte out byteDecoded outDecoded
      obtain ⟨taken, value⟩ := byteOf_eq_some byteDecoded
      cases decoded
      rw [decodeLoop_escape, decodeNumber_taken c0 c1 taken, ih outDecoded, value]
      rfl
    · cases decoded
  | cutLow c0 => exact fun decoded => by cases decoded
  | cutBoth => exact fun decoded => by cases decoded

/-- A scan that neither stops nor reads behind the limit succeeds. -/
theorem decodeLoop_succeeds (limit : Nat → UInt8) :
    ¬ Stops range → (decodeLoop limit range).overrun = 0 →
      ∃ out, (decodeLoop limit range).pszNew = some out := by
  induction range using text_induction with
  | nil => exact fun _ _ => ⟨[], rfl⟩
  | plain ch rest plain ih =>
    rw [stops_plain rest plain, decodeLoop_plain limit rest plain]
    intro runs within
    obtain ⟨out, done⟩ := ih runs within
    exact ⟨ch :: out, congrArg (Option.map (ch :: ·)) done⟩
  | escape c0 c1 rest ih =>
    rw [stops_escape, not_or, not_not, decodeLoop_escape]
    rintro ⟨taken, runs⟩
    rw [decodeNumber_taken c0 c1 taken]
    intro within
    obtain ⟨out, done⟩ := ih runs (by simpa using within)
    exact ⟨_, congrArg (Option.map _) done⟩
  | cutLow c0 =>
    intro _ within
    have := overrun_le_decodeNumber c0 (limit 0) 1 ⟨some [], 0⟩
    rw [decodeLoop_cutLow] at within
    omega
  | cutBoth =>
    intro _ within
    have := overrun_le_decodeNumber (limit 0) (limit 1) 2 ⟨some [], 0⟩
    rw [decodeLoop_cutBoth] at within
    omega

/-! ### When decoding is strict -/

theorem zero_notMem_terminated (buf : List UInt8) : 0 ∉ terminated buf := fun mem => by
  have := List.mem_takeWhile_imp mem
  simp at this

theorem terminated_eq_self {buf : List UInt8} (whole : 0 ∉ buf) : terminated buf = buf := by
  refine List.takeWhile_eq_self_iff.mpr fun ch mem => ?_
  exact decide_eq_true fun zero => whole (zero ▸ mem)

/-- A string that is well encoded up to the limit, with no terminator in it, is decoded. -/
theorem rtUriPercentDecodeN_of_decode {pszString out : List UInt8} {cchMax : Option Nat}
    (behind : Nat → UInt8) (decoded : decode (limited pszString cchMax) = some out)
    (whole : 0 ∉ out) : rtUriPercentDecodeN pszString behind cchMax = ⟨some out, 0⟩ := by
  simp only [rtUriPercentDecodeN, decodeLoop_of_decode _ decoded, map_some,
    terminated_eq_self whole]

/-- Decoding is strict and bounded just if the scan stops at what is no number, or the string is
well encoded up to the limit and has no terminator in it. -/
theorem decode_strict (pszString : List UInt8) (behind : Nat → UInt8) (cchMax : Option Nat) :
    Strict (limited pszString cchMax) (rtUriPercentDecodeN pszString behind cchMax) ↔
      Stops (limited pszString cchMax) ∨
        ∃ out, decode (limited pszString cchMax) = some out ∧ 0 ∉ out := by
  set range := limited pszString cchMax
  set limit : Nat → UInt8 := fun i => memory pszString behind (range.length + i)
  have result : rtUriPercentDecodeN pszString behind cchMax =
      ⟨(decodeLoop limit range).pszNew.map terminated, (decodeLoop limit range).overrun⟩ := rfl
  rw [result, Strict]
  constructor
  · rintro ⟨within, strict⟩
    by_cases stops : Stops range
    · exact .inl stops
    · obtain ⟨out, done⟩ := decodeLoop_succeeds limit stops within
      have decoded := strict (terminated out) (by rw [done, map_some])
      exact .inr ⟨_, decoded, zero_notMem_terminated out⟩
  · rintro (stops | ⟨out, decoded, whole⟩)
    · rw [decodeLoop_of_stops limit stops]
      exact ⟨rfl, fun psz none => by cases none⟩
    · rw [← Strict, ← result, rtUriPercentDecodeN_of_decode behind decoded whole]
      exact ⟨rfl, fun psz same => some.inj same ▸ decoded⟩

/-- The last `%` of a string is cut off by the limit, and two characters behind it are read. -/
theorem decode_reads_behind_limit :
    ¬ Strict (limited [percent, 0x34, 0x31] (some 1))
      (rtUriPercentDecodeN [percent, 0x34, 0x31] (fun _ => 0) (some 1)) :=
  fun strict => absurd strict.1 (by decide)

end VBox.Runtime.Uri
