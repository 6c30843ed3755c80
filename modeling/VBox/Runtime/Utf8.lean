import Mathlib.Data.List.Basic
import Mathlib.Tactic.IntervalCases
import Mathlib.Tactic.Ring

/-!
Code points.

A terminated string is the list of its characters. A sequence is checked from its last octet on;
what is behind a terminator does not matter, as the terminator does not continue a sequence.
-/

namespace VBox.Runtime.Utf8

open List

inductive Error where
  | invalidUtf8Encoding
  | codePointEndianIndicator
  | codePointSurrogate
  deriving DecidableEq

/-! ### Getting and putting code points -/

/-- The length of the sequence that an octet begins. -/
def sequenceLength (uch : UInt8) : Option Nat :=
  if uch < 0xc0 then none
  else if uch < 0xe0 then some 2
  else if uch < 0xf0 then some 3
  else if uch < 0xf8 then some 4
  else if uch < 0xfc then some 5
  else if uch < 0xfe then some 6
  else none

def isContinuation (uch : UInt8) : Bool := uch &&& 0xc0 == 0x80

/-- The check of a code point in a sequence of a given length. -/
def checkCp (cb uc : Nat) : Except Error Unit :=
  match cb with
  | 2 => if 0x80 ≤ uc ∧ uc ≤ 0x7ff then .ok () else .error .invalidUtf8Encoding
  | 3 =>
    if ¬ (0x800 ≤ uc ∧ uc ≤ 0xfffd) then
      .error (if uc = 0xffff ∨ uc = 0xfffe then .codePointEndianIndicator else .invalidUtf8Encoding)
    else if ¬ (uc < 0xd800 ∨ 0xdfff < uc) then .error .codePointSurrogate
    else .ok ()
  | 4 => if 0x10000 ≤ uc ∧ uc ≤ 0x1fffff then .ok () else .error .invalidUtf8Encoding
  | 5 => if 0x200000 ≤ uc ∧ uc ≤ 0x3ffffff then .ok () else .error .invalidUtf8Encoding
  | _ => if 0x4000000 ≤ uc ∧ uc ≤ 0x7fffffff then .ok () else .error .invalidUtf8Encoding

/-- The bits of a code point, those of the first octet in front. -/
def codePoint (cb : Nat) (uch : UInt8) (tail : List UInt8) : Nat :=
  tail.foldl (fun uc ch => 64 * uc + ch.toNat % 64) (uch.toNat % 2 ^ (7 - cb))

/-- `RTStrGetCpEx`: the code point and what follows it; at the end, the terminator. -/
def rtStrGetCpEx : List UInt8 → Except Error (Nat × List UInt8)
  | [] => .ok (0, [])
  | uch :: psz =>
    if uch < 0x80 then .ok (uch.toNat, psz)
    else
      match sequenceLength uch with
      | none => .error .invalidUtf8Encoding
      | some cb =>
        let tail := psz.take (cb - 1)
        if tail.length = cb - 1 ∧ tail.all isContinuation then
          (checkCp cb (codePoint cb uch tail)).map
            fun _ => (codePoint cb uch tail, psz.drop (cb - 1))
        else .error .invalidUtf8Encoding

/-- The continuation octet with the low six bits of a number. -/
def continuation (uc : Nat) : UInt8 := UInt8.ofNat (0x80 + uc % 64)

/-- `RTStrPutCp`. -/
def rtStrPutCp (uc : Nat) : List UInt8 :=
  if uc < 0x80 then [UInt8.ofNat uc]
  else if uc < 0x800 then [UInt8.ofNat (0xc0 + uc / 64), continuation uc]
  else if uc < 0x10000 then
    if uc < 0xd8000 ∨ (0xdfff < uc ∧ uc < 0xfffe) then
      [UInt8.ofNat (0xe0 + uc / 64 ^ 2), continuation (uc / 64), continuation uc]
    else [0x7f]
  else if uc < 0x200000 then
    [UInt8.ofNat (0xf0 + uc / 64 ^ 3), continuation (uc / 64 ^ 2), continuation (uc / 64),
      continuation uc]
  else if uc < 0x4000000 then
    [UInt8.ofNat (0xf8 + uc / 64 ^ 4), continuation (uc / 64 ^ 3), continuation (uc / 64 ^ 2),
      continuation (uc / 64), continuation uc]
  else if uc ≤ 0x7fffffff then
    [UInt8.ofNat (0xfc + uc / 64 ^ 5), continuation (uc / 64 ^ 4), continuation (uc / 64 ^ 3),
      continuation (uc / 64 ^ 2), continuation (uc / 64), continuation uc]
  else [0x7f]

/-- A code point that has an encoding: no terminator, no surrogate and no endian indicator. -/
def IsCp (uc : Nat) : Prop :=
  0 < uc ∧ uc ≤ 0x7fffffff ∧ (uc < 0xd800 ∨ 0xdfff < uc) ∧ uc ≠ 0xfffe ∧ uc ≠ 0xffff

/-- The encoding of code points. -/
def putCps (cps : List Nat) : List UInt8 := cps.flatMap rtStrPutCp

/-- A string of encoded code points. -/
def IsUtf8 (psz : List UInt8) : Prop := ∃ cps, (∀ uc ∈ cps, IsCp uc) ∧ psz = putCps cps

theorem isUtf8_nil : IsUtf8 [] := ⟨[], by simp, rfl⟩

variable {uc : Nat}

theorem isUtf8_put (valid : IsCp uc) {psz : List UInt8} (rest : IsUtf8 psz) :
    IsUtf8 (rtStrPutCp uc ++ psz) := by
  obtain ⟨cps, all, rfl⟩ := rest
  exact ⟨uc :: cps, by simpa using ⟨valid, all⟩, rfl⟩

/-! ### Octets -/

theorem isContinuation_iff (uch : UInt8) :
    isContinuation uch = true ↔ 0x80 ≤ uch.toNat ∧ uch.toNat < 0xc0 := by
  have all : ∀ n : Fin 256, isContinuation (UInt8.ofNat n) = true ↔
      0x80 ≤ (UInt8.ofNat n).toNat ∧ (UInt8.ofNat n).toNat < 0xc0 := by decide +kernel
  simpa using all ⟨uch.toNat, UInt8.toNat_lt uch⟩

theorem continuation_toNat (uc : Nat) : (continuation uc).toNat = 0x80 + uc % 64 := by
  rw [continuation, UInt8.toNat_ofNat']
  omega

theorem isContinuation_continuation (uc : Nat) : isContinuation (continuation uc) = true := by
  rw [isContinuation_iff, continuation_toNat]
  omega

variable {uch : UInt8}

/-- A continuation octet is known by the number whose low bits it holds. -/
theorem continuation_eq (continues : isContinuation uch = true) {uc : Nat}
    (low : uc % 64 = uch.toNat % 64) : continuation uc = uch := by
  have := (isContinuation_iff uch).mp continues
  apply UInt8.toNat_inj.mp
  rw [continuation_toNat]
  omega

/-! ### Sequences -/

/-- The continuation octets for the low bits of a number, six each. -/
def continuations : Nat → Nat → List UInt8
  | 0, _ => []
  | cb + 1, uc => continuation (uc / 64 ^ cb) :: continuations cb uc

/-- The sequence of `cb` octets for a code point. -/
def encoded (cb uc : Nat) : List UInt8 :=
  UInt8.ofNat (256 - 2 ^ (8 - cb) + uc / 64 ^ (cb - 1)) :: continuations (cb - 1) uc

@[simp] theorem continuations_length (cb uc : Nat) : (continuations cb uc).length = cb := by
  induction cb with
  | zero => rfl
  | succ cb ih => rw [continuations, length_cons, ih]

theorem continuations_all (cb uc : Nat) : (continuations cb uc).all isContinuation = true := by
  induction cb with
  | zero => rfl
  | succ cb ih => rw [continuations, all_cons, isContinuation_continuation, ih, Bool.and_self]

/-- The bits come back out of the octets. -/
theorem foldl_continuations (cb uc first : Nat) :
    (continuations cb uc).foldl (fun uc ch => 64 * uc + ch.toNat % 64) first =
      64 ^ cb * first + uc % 64 ^ cb := by
  induction cb generalizing first with
  | zero => simp [continuations, Nat.mod_one]
  | succ cb ih =>
    have low : (continuation (uc / 64 ^ cb)).toNat % 64 = uc / 64 ^ cb % 64 := by
      rw [continuation_toNat]
      omega
    rw [continuations, foldl_cons, ih, low, Nat.pow_succ, Nat.mod_mul]
    ring

/-- The octets come back out of the bits. -/
theorem continuations_foldl {tail : List UInt8} (continues : tail.all isContinuation = true)
    (first : Nat) :
    continuations tail.length (tail.foldl (fun uc ch => 64 * uc + ch.toNat % 64) first) = tail ∧
      tail.foldl (fun uc ch => 64 * uc + ch.toNat % 64) first / 64 ^ tail.length = first := by
  induction tail generalizing first with
  | nil => exact ⟨rfl, by simp⟩
  | cons ch tail ih =>
    obtain ⟨head, rest⟩ := Bool.and_eq_true_iff.mp (all_cons ▸ continues)
    obtain ⟨same, quotient⟩ := ih rest (64 * first + ch.toNat % 64)
    rw [foldl_cons, length_cons, continuations, same, quotient, Nat.pow_succ,
      ← Nat.div_div_eq_div_mul, quotient]
    exact ⟨by rw [continuation_eq head (by omega)], by omega⟩

variable {cb : Nat}

/-- The first octet tells the length and holds the high bits. -/
theorem sequenceLength_first {high : Nat} (least : 2 ≤ cb) (most : cb ≤ 6)
    (fits : high < 2 ^ (7 - cb)) :
    sequenceLength (UInt8.ofNat (256 - 2 ^ (8 - cb) + high)) = some cb ∧
      (UInt8.ofNat (256 - 2 ^ (8 - cb) + high)).toNat % 2 ^ (7 - cb) = high := by
  simp only [sequenceLength, UInt8.lt_iff_toNat_lt, UInt8.reduceToNat, UInt8.toNat_ofNat']
  interval_cases cb <;> simp only [Nat.reduceSub, Nat.reducePow] at fits ⊢ <;>
    exact ⟨by split_ifs <;> first | rfl | omega, by omega⟩

theorem sequenceLength_some (some : sequenceLength uch = some cb) :
    2 ≤ cb ∧ cb ≤ 6 ∧ uch.toNat = 256 - 2 ^ (8 - cb) + uch.toNat % 2 ^ (7 - cb) := by
  simp only [sequenceLength, UInt8.lt_iff_toNat_lt, UInt8.reduceToNat] at some
  split_ifs at some <;> obtain rfl := Option.some.inj some <;>
    exact ⟨by decide, by decide, by omega⟩

/-! ### Round trips -/

/-- A code point that passes its check is put as the sequence it comes from. -/
theorem checkCp_ok (least : 2 ≤ cb) (most : cb ≤ 6) (ok : checkCp cb uc = .ok ()) :
    IsCp uc ∧ 0x80 ≤ uc ∧ rtStrPutCp uc = encoded cb uc ∧ uc / 64 ^ (cb - 1) < 2 ^ (7 - cb) := by
  unfold IsCp rtStrPutCp encoded
  interval_cases cb
  · have range : 0x80 ≤ uc ∧ uc ≤ 0x7ff := by
      by_contra outside
      rw [checkCp, if_neg outside] at ok
      cases ok
    rw [if_neg (by omega), if_pos (by omega)]
    refine ⟨by omega, range.1, by simp [continuations], by omega⟩
  · have range : 0x800 ≤ uc ∧ uc ≤ 0xfffd := by
      by_contra outside
      rw [checkCp, if_pos outside] at ok
      cases ok
    have plane : uc < 0xd800 ∨ 0xdfff < uc := by
      by_contra outside
      rw [checkCp, if_neg (not_not_intro range), if_pos outside] at ok
      cases ok
    rw [if_neg (by omega), if_neg (by omega), if_pos (by omega), if_pos (by omega)]
    refine ⟨by omega, by omega, by simp [continuations], by omega⟩
  · have range : 0x10000 ≤ uc ∧ uc ≤ 0x1fffff := by
      by_contra outside
      rw [checkCp, if_neg outside] at ok
      cases ok
    rw [if_neg (by omega), if_neg (by omega), if_neg (by omega), if_pos (by omega)]
    refine ⟨by omega, by omega, by simp [continuations], by omega⟩
  · have range : 0x200000 ≤ uc ∧ uc ≤ 0x3ffffff := by
      by_contra outside
      rw [checkCp, if_neg outside] at ok
      cases ok
    rw [if_neg (by omega), if_neg (by omega), if_neg (by omega), if_neg (by omega),
      if_pos (by omega)]
    refine ⟨by omega, by omega, by simp [continuations], by omega⟩
  · have range : 0x4000000 ≤ uc ∧ uc ≤ 0x7fffffff := by
      by_contra outside
      rw [checkCp, if_neg outside] at ok
      · cases ok
      all_goals decide
    rw [if_neg (by omega), if_neg (by omega), if_neg (by omega), if_neg (by omega),
      if_neg (by omega), if_pos (by omega)]
    refine ⟨by omega, by omega, by simp [continuations], by omega⟩

/-- Every code point beyond the plain characters passes the check of some length. -/
theorem exists_checkCp (valid : IsCp uc) (high : 0x80 ≤ uc) :
    ∃ cb, 2 ≤ cb ∧ cb ≤ 6 ∧ checkCp cb uc = .ok () := by
  obtain ⟨-, most, surrogate, endian⟩ := valid
  by_cases two : uc ≤ 0x7ff
  · exact ⟨2, by decide, by decide, if_pos ⟨high, two⟩⟩
  by_cases three : uc ≤ 0xfffd
  · refine ⟨3, by decide, by decide, ?_⟩
    rw [checkCp, if_neg (by omega), if_neg (by omega)]
  by_cases four : uc ≤ 0x1fffff
  · exact ⟨4, by decide, by decide, if_pos ⟨by omega, four⟩⟩
  by_cases five : uc ≤ 0x3ffffff
  · exact ⟨5, by decide, by decide, if_pos ⟨by omega, five⟩⟩
  · exact ⟨6, by decide, by decide, if_pos ⟨by omega, most⟩⟩

/-- What has been put is got again. -/
theorem rtStrGetCpEx_put (valid : IsCp uc) (rest : List UInt8) :
    rtStrGetCpEx (rtStrPutCp uc ++ rest) = .ok (uc, rest) := by
  by_cases plain : uc < 0x80
  · have value : (UInt8.ofNat uc).toNat = uc := by
      rw [UInt8.toNat_ofNat']
      omega
    have small : UInt8.ofNat uc < 0x80 := by simpa [UInt8.lt_iff_toNat_lt, value] using plain
    rw [rtStrPutCp, if_pos plain, cons_append, nil_append, rtStrGetCpEx, if_pos small, value]
  · obtain ⟨cb, least, most, ok⟩ := exists_checkCp valid (Nat.le_of_not_lt plain)
    obtain ⟨-, -, put, fits⟩ := checkCp_ok least most ok
    obtain ⟨length, high⟩ := sequenceLength_first least most fits
    have big : ¬ UInt8.ofNat (256 - 2 ^ (8 - cb) + uc / 64 ^ (cb - 1)) < 0x80 := by
      intro small
      have below : UInt8.ofNat (256 - 2 ^ (8 - cb) + uc / 64 ^ (cb - 1)) < 0xc0 :=
        UInt8.lt_trans small (by decide)
      rw [sequenceLength, if_pos below] at length
      cases length
    have tail : (continuations (cb - 1) uc ++ rest).take (cb - 1) = continuations (cb - 1) uc :=
      take_left' (continuations_length _ _)
    have behind : (continuations (cb - 1) uc ++ rest).drop (cb - 1) = rest :=
      drop_left' (continuations_length _ _)
    have same : codePoint cb (UInt8.ofNat (256 - 2 ^ (8 - cb) + uc / 64 ^ (cb - 1)))
        (continuations (cb - 1) uc) = uc := by
      rw [codePoint, foldl_continuations, high, Nat.div_add_mod]
    rw [put, encoded, cons_append, rtStrGetCpEx, if_neg big, length]
    simp only [tail, behind, continuations_length, continuations_all, same, ok, and_self, if_true]
    rfl

variable {psz rest : List UInt8}

/-- What is got, but for the terminator, is an encoded code point. -/
theorem rtStrGetCpEx_ok (got : rtStrGetCpEx psz = .ok (uc, rest)) (more : uc ≠ 0) :
    IsCp uc ∧ psz = rtStrPutCp uc ++ rest := by
  cases psz with
  | nil =>
    cases got
    exact absurd rfl more
  | cons uch psz =>
    rw [rtStrGetCpEx] at got
    split at got
    · rename_i small
      cases got
      have plain : uch.toNat < 0x80 := by simpa [UInt8.lt_iff_toNat_lt] using small
      refine ⟨⟨by omega, by omega, by omega, by omega, by omega⟩, ?_⟩
      rw [rtStrPutCp, if_pos plain, UInt8.ofNat_toNat]
      rfl
    · split at got
      · cases got
      · rename_i cb length
        obtain ⟨least, most, first⟩ := sequenceLength_some length
        dsimp only at got
        split at got
        · rename_i tail
          obtain ⟨whole, continues⟩ := tail
          cases check : checkCp cb (codePoint cb uch (psz.take (cb - 1))) with
          | error e => rw [check] at got; cases got
          | ok =>
            rw [check] at got
            cases got
            obtain ⟨valid, -, put, -⟩ := checkCp_ok least most check
            obtain ⟨same, quotient⟩ := continuations_foldl continues (uch.toNat % 2 ^ (7 - cb))
            rw [whole] at same quotient
            refine ⟨valid, ?_⟩
            rw [put, encoded, codePoint, same, quotient, ← first, UInt8.ofNat_toNat,
              cons_append, take_append_drop]
        · cases got

theorem isCp_plain (more : 0 < uc) (plain : uc < 0x80) : IsCp uc :=
  ⟨more, by omega, by omega, by omega, by omega⟩

/-- A plain character is its own encoding. -/
theorem rtStrPutCp_plain {ch : UInt8} (plain : ch.toNat < 0x80) : rtStrPutCp ch.toNat = [ch] := by
  rw [rtStrPutCp, if_pos plain, UInt8.ofNat_toNat]

/-- The octets of a code point are no plain characters, but for a plain character itself. -/
theorem mem_rtStrPutCp (valid : IsCp uc) {ch : UInt8} (mem : ch ∈ rtStrPutCp uc) :
    ch.toNat = uc ∨ 0x80 ≤ ch.toNat := by
  by_cases plain : uc < 0x80
  · rw [rtStrPutCp, if_pos plain, mem_singleton] at mem
    rw [mem, UInt8.toNat_ofNat']
    omega
  · obtain ⟨cb, least, most, ok⟩ := exists_checkCp valid (Nat.le_of_not_lt plain)
    obtain ⟨-, -, put, fits⟩ := checkCp_ok least most ok
    rw [put, encoded, mem_cons] at mem
    obtain rfl | mem := mem
    · obtain ⟨length, high⟩ := sequenceLength_first least most fits
      have := (sequenceLength_some length).2.2
      have : 2 ^ (8 - cb) ≤ 2 ^ 6 := Nat.pow_le_pow_right (by decide) (by omega)
      omega
    · have := (isContinuation_iff ch).mp (List.all_eq_true.mp (continuations_all _ _) ch mem)
      omega

theorem rtStrPutCp_ne_nil (uc : Nat) : rtStrPutCp uc ≠ [] := by
  unfold rtStrPutCp
  split_ifs <;> simp

/-- Getting a code point consumes something, but for the terminator. -/
theorem rtStrGetCpEx_length (got : rtStrGetCpEx psz = .ok (uc, rest)) (more : uc ≠ 0) :
    rest.length < psz.length := by
  obtain ⟨-, rfl⟩ := rtStrGetCpEx_ok got more
  have := length_pos_of_ne_nil (rtStrPutCp_ne_nil uc)
  rw [length_append]
  omega

end VBox.Runtime.Utf8
