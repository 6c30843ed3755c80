import Mathlib.Data.List.Induction
import VBox.Runtime.Utf8Decode

/-!
Stepping over what has been put, forwards and backwards.

A typing error in a bound lets the encoder write surrogates and endian indicators, which the decoder
refuses.
-/

namespace VBox.Runtime.Utf8

open List

instance (uc : Nat) : Decidable (IsCp uc) := inferInstanceAs (Decidable (_ ∧ _))

/-! ### Stepping back -/

/-- The loop of `RTStrPrevCp` over the octets before the last one, from behind. -/
def prevLoop (uMask : UInt32) : List UInt8 → Nat
  | [] => 0
  | uch :: before =>
    if uMask &&& 1 ≠ 0 then 0
    else if uch &&& 0xc0 ≠ 0x80 then
      if uch.toUInt32 &&& (uMask >>> 1) = uMask &&& 0xff then before.length else 0
    else prevLoop (uMask >>> 1) before

/-- `RTStrPrevCp` behind some octets of a string: how many of them are left. -/
def rtStrPrevCp (before : List UInt8) : Nat :=
  match before.reverse with
  | [] => 0
  | uch :: before =>
    if uch &&& 0x80 = 0 then before.length
    else if uch &&& 0x40 ≠ 0 then 0
    else prevLoop 0xffffffc0 before

/-- The mask when some octets that continue a sequence have been passed behind the last one. -/
def prevMask : Nat → UInt32
  | 0 => 0xffffffc0
  | n + 1 => prevMask n >>> 1

theorem continues_bits {ch : UInt8} (continues : isContinuation ch = true) :
    ch &&& 0x80 ≠ 0 ∧ ch &&& 0x40 = 0 ∧ ch &&& 0xc0 = 0x80 := by
  have all : ∀ n : Fin 256, isContinuation (UInt8.ofNat n) = true →
      UInt8.ofNat n &&& 0x80 ≠ 0 ∧ UInt8.ofNat n &&& 0x40 = 0 ∧ UInt8.ofNat n &&& 0xc0 = 0x80 := by
    decide +kernel
  have this := all ⟨ch.toNat, UInt8.toNat_lt ch⟩
  simp only [UInt8.ofNat_toNat] at this
  exact this continues

/-- A first octet agrees with the mask for its length. -/
theorem first_bits {uch : UInt8} {cb : Nat} (length : sequenceLength uch = some cb) :
    uch &&& 0xc0 ≠ 0x80 ∧ prevMask (cb - 2) &&& 1 = 0 ∧
      uch.toUInt32 &&& (prevMask (cb - 2) >>> 1) = prevMask (cb - 2) &&& 0xff := by
  have all : ∀ n : Fin 256, ∀ cb ∈ sequenceLength (UInt8.ofNat n),
      UInt8.ofNat n &&& 0xc0 ≠ 0x80 ∧ prevMask (cb - 2) &&& 1 = 0 ∧
        (UInt8.ofNat n).toUInt32 &&& (prevMask (cb - 2) >>> 1) = prevMask (cb - 2) &&& 0xff := by
    decide +kernel
  have this := all ⟨uch.toNat, UInt8.toNat_lt uch⟩
  simp only [UInt8.ofNat_toNat] at this
  exact this cb length

variable {n : Nat}

theorem prevMask_even (few : n ≤ 5) : prevMask n &&& 1 = 0 := by
  interval_cases n <;> decide

/-- The loop passes the octets that continue a sequence. -/
theorem prevLoop_tail {tail : List UInt8} (continues : tail.all isContinuation = true)
    (few : n + tail.length ≤ 5) (before : List UInt8) :
    prevLoop (prevMask n) (tail ++ before) = prevLoop (prevMask (n + tail.length)) before := by
  induction tail generalizing n with
  | nil => rfl
  | cons ch tail ih =>
    rw [length_cons] at few
    obtain ⟨head, rest⟩ := Bool.and_eq_true_iff.mp (all_cons ▸ continues)
    have bits := (continues_bits head).2.2
    rw [cons_append, prevLoop, if_neg (not_not_intro (prevMask_even (by omega))),
      if_neg (not_not_intro bits), length_cons, ← Nat.succ_add_eq_add_succ]
    exact ih rest (n := n + 1) (by omega)

variable {uc : Nat}

/-- One step back over what has been put. -/
theorem rtStrPrevCp_put (valid : IsCp uc) (before : List UInt8) :
    rtStrPrevCp (before ++ rtStrPutCp uc) = before.length := by
  by_cases plain : uc < 0x80
  · obtain ⟨uch, put, -, small, -⟩ := put_plain valid plain
    rw [put, rtStrPrevCp, reverse_append]
    simp only [reverse_cons, reverse_nil, nil_append, singleton_append,
      if_pos (plain_bit small), length_reverse]
  · obtain ⟨uch, tail, put, -, length, continues, -, -⟩ :=
      put_sequence valid (Nat.le_of_not_lt plain)
    obtain ⟨least, most, -⟩ := sequenceLength_some length
    obtain ⟨first, even, same⟩ := first_bits length
    obtain ⟨front, last, rfl⟩ : ∃ front last, tail = front ++ [last] := by
      obtain rfl | ⟨front, last, rfl⟩ := eq_nil_or_concat' tail
      · simp at least
      · exact ⟨front, last, rfl⟩
    rw [all_append, Bool.and_eq_true_iff] at continues
    obtain ⟨passed, lastContinues⟩ := continues
    obtain ⟨high, low, -⟩ := continues_bits (by simpa using lastContinues)
    rw [length_append, length_singleton] at even same most
    have reversed : (before ++ rtStrPutCp uc).reverse =
        last :: (front.reverse ++ uch :: before.reverse) := by
      simp [put]
    rw [rtStrPrevCp, reversed]
    simp only [if_neg high, low, ne_eq, not_true, if_false]
    have passed' : front.reverse.all isContinuation = true := by simpa using passed
    have loop := prevLoop_tail (n := 0) passed' (by simp; omega) (uch :: before.reverse)
    rw [show prevMask 0 = 0xffffffc0 from rfl] at loop
    rw [loop, length_reverse, Nat.zero_add, prevLoop,
      if_neg (not_not_intro (by simpa using even)), if_pos first, if_pos (by simpa using same),
      length_reverse]

/-! ### Stepping forward -/

/-- A code point that has been put is stepped over. -/
theorem getCpExInternal_put (valid : IsCp uc) (psz : List UInt8) :
    rtStrGetCpExInternal (rtStrPutCp uc ++ psz) = some (.ok uc, psz) := by
  by_cases plain : uc < 0x80
  · obtain ⟨uch, put, -, small, value⟩ := put_plain valid plain
    rw [put, singleton_append, rtStrGetCpExInternal, if_pos small, value]
  · obtain ⟨uch, tail, put, big, length, -, -, got⟩ := put_sequence valid (Nat.le_of_not_lt plain)
    rw [put, cons_append, rtStrGetCpExInternal, if_neg big, length]
    simp only [got, Option.map_some, Nat.add_sub_cancel, drop_left]

/-- A surrogate or an endian indicator. -/
def Forbidden (uc : Nat) : Prop := (0xd800 ≤ uc ∧ uc ≤ 0xdfff) ∨ uc = 0xfffe ∨ uc = 0xffff

/-- What the encoder writes for it is refused. -/
theorem getCpExInternal_forbidden (forbidden : Forbidden uc) (psz : List UInt8) :
    ∃ rc rest, rtStrGetCpExInternal (rtStrPutCp uc ++ psz) = some (.error rc, rest) := by
  have put : rtStrPutCp uc = encoded 3 uc := by
    unfold Forbidden at forbidden
    rw [rtStrPutCp, if_neg (by omega), if_neg (by omega), if_pos (by omega), if_pos (by omega)]
    simp [encoded, continuations]
  have fits : uc / 64 ^ (3 - 1) < 2 ^ (7 - 3) := by
    unfold Forbidden at forbidden
    omega
  obtain ⟨length, bits⟩ := sequenceLength_first (show 2 ≤ 3 by decide) (by decide) fits
  have big : ¬ UInt8.ofNat (256 - 2 ^ (8 - 3) + uc / 64 ^ (3 - 1)) < 0x80 := by
    intro small
    rw [sequenceLength, if_pos (UInt8.lt_trans small (by decide))] at length
    cases length
  have tail : (continuations (3 - 1) uc ++ psz).take (3 - 1) = continuations (3 - 1) uc :=
    take_left' (continuations_length _ _)
  have code : codePoint 3 (UInt8.ofNat (256 - 2 ^ (8 - 3) + uc / 64 ^ (3 - 1)))
      (continuations (3 - 1) uc) = uc := by
    rw [codePoint, foldl_continuations, bits, Nat.div_add_mod]
  have checked : checkTail (continuations (3 - 1) uc ++ psz) (3 - 1) = some true :=
    checkTail_true.mpr ⟨by simp, by rw [tail]; exact continuations_all _ _⟩
  have refused : ∃ rc, checkCp 3 uc = .error rc := by
    by_cases range : 0x800 ≤ uc ∧ uc ≤ 0xfffd
    · have surrogate : ¬ (uc < 0xd800 ∨ 0xdfff < uc) := by
        unfold Forbidden at forbidden
        omega
      exact ⟨_, by rw [checkCp, if_neg (not_not_intro range), if_pos surrogate]⟩
    · exact ⟨_, by rw [checkCp, if_pos range]⟩
  obtain ⟨rc, refused⟩ := refused
  refine ⟨rc, continuations (3 - 1) uc ++ psz, ?_⟩
  rw [put, encoded, cons_append, rtStrGetCpExInternal, if_neg big, length]
  simp only [getSequence, checked, Option.map_some, if_true, tail, code, refused]
  rfl

/-! ### There and back -/

/-- Steps from an offset up to the terminator: the offsets, with the code points there. -/
def stepOver (off : Nat) : Nat → List UInt8 → Option (List (Nat × Nat))
  | 0, _ => none
  | fuel + 1, psz =>
    match rtStrGetCpExInternal psz with
    | some (.ok uc, rest) =>
      if uc = 0 then some []
      else (stepOver (off + (psz.length - rest.length)) fuel rest).map ((off, uc) :: ·)
    | _ => none

/-- Steps back to the start: the offsets. -/
def stepBack : Nat → List UInt8 → List Nat
  | 0, _ => []
  | _ + 1, [] => []
  | fuel + 1, uch :: before =>
    rtStrPrevCp (uch :: before) ::
      stepBack fuel ((uch :: before).take (rtStrPrevCp (uch :: before)))

/-- The string built of some values. -/
def putAll (values : List UInt32) : List UInt8 := putCps (values.map UInt32.toNat)

/-- What is got for a value that has been put. -/
def shown (uc : Nat) : Nat := if IsCp uc then uc else 0x7f

/-- Writing, reading and stepping back fit together. -/
structure FitTogether (values : List UInt32) : Prop where
  accepted : rtStrValidateEncoding (putAll values ++ [0]) = some (.ok ())
  steps : ∃ there, stepOver 0 ((putAll values).length + 1) (putAll values ++ [0]) = some there ∧
    there.map Prod.snd = values.map (fun uc => shown uc.toNat) ∧
      stepBack ((putAll values).length + 1) (putAll values) = (there.map Prod.fst).reverse

/-- The offsets of code points that have been put. -/
def offsets (off : Nat) : List Nat → List Nat
  | [] => []
  | uc :: cps => off :: offsets (off + (rtStrPutCp uc).length) cps

theorem offsets_append (off uc : Nat) (cps : List Nat) :
    offsets off (cps ++ [uc]) = offsets off cps ++ [off + (putCps cps).length] := by
  induction cps generalizing off with
  | nil => rfl
  | cons uc' cps ih =>
    rw [cons_append, offsets, ih, offsets, cons_append, putCps_cons, length_append, Nat.add_assoc]

theorem offsets_length (off : Nat) (cps : List Nat) : (offsets off cps).length = cps.length := by
  induction cps generalizing off with
  | nil => rfl
  | cons uc cps ih => rw [offsets, length_cons, ih, length_cons]

variable {cps : List Nat}

theorem stepOver_put (valid : ∀ uc ∈ cps, IsCp uc) {fuel : Nat}
    (enough : (putCps cps).length < fuel) (off : Nat) :
    stepOver off fuel (putCps cps ++ [0]) = some ((offsets off cps).zip cps) := by
  induction cps generalizing fuel off with
  | nil =>
    obtain ⟨fuel, rfl⟩ : ∃ n, fuel = n + 1 := Nat.exists_eq_add_one.mpr (Nat.zero_lt_of_lt enough)
    rfl
  | cons uc cps ih =>
    obtain ⟨fuel, rfl⟩ : ∃ n, fuel = n + 1 := Nat.exists_eq_add_one.mpr (Nat.zero_lt_of_lt enough)
    have first := valid uc mem_cons_self
    have some := rtStrPutCp_length_pos uc
    rw [putCps_cons, length_append] at enough
    rw [putCps_cons, append_assoc, stepOver, getCpExInternal_put first]
    simp only [if_neg (Nat.ne_of_gt first.1)]
    rw [ih (fun uc' member => valid uc' (mem_cons_of_mem _ member)) (by omega),
      length_append, Nat.add_sub_cancel]
    rfl

theorem stepBack_put (valid : ∀ uc ∈ cps, IsCp uc) {fuel : Nat}
    (enough : (putCps cps).length < fuel) :
    stepBack fuel (putCps cps) = (offsets 0 cps).reverse := by
  induction cps using reverseRecOn generalizing fuel with
  | nil =>
    obtain ⟨fuel, rfl⟩ : ∃ n, fuel = n + 1 := Nat.exists_eq_add_one.mpr (Nat.zero_lt_of_lt enough)
    rfl
  | append_singleton cps uc ih =>
    obtain ⟨fuel, rfl⟩ : ∃ n, fuel = n + 1 := Nat.exists_eq_add_one.mpr (Nat.zero_lt_of_lt enough)
    have last := valid uc (by simp)
    have split : putCps (cps ++ [uc]) = putCps cps ++ rtStrPutCp uc := by
      rw [putCps, flatMap_append]
      simp [putCps]
    have some := rtStrPutCp_length_pos uc
    rw [split, length_append] at enough
    have back := rtStrPrevCp_put last (putCps cps)
    obtain ⟨uch, before, whole⟩ : ∃ uch before, putCps cps ++ rtStrPutCp uc = uch :: before :=
      exists_cons_of_length_pos (by rw [length_append]; omega)
    rw [split, whole, stepBack, ← whole, back, take_left,
      ih (fun uc' member => valid uc' (by simp [member])) (by omega), offsets_append,
      reverse_append, Nat.zero_add]
    rfl

/-- What is put for a value that is not forbidden. -/
theorem put_shown (some : uc ≠ 0) (allowed : ¬ Forbidden uc) :
    IsCp (shown uc) ∧ rtStrPutCp uc = rtStrPutCp (shown uc) := by
  by_cases valid : IsCp uc
  · rw [shown, if_pos valid]
    exact ⟨valid, rfl⟩
  · rw [shown, if_neg valid]
    refine ⟨by decide, ?_⟩
    unfold IsCp Forbidden at *
    rw [rtStrPutCp, if_neg (by omega), if_neg (by omega), if_neg (by omega), if_neg (by omega),
      if_neg (by omega), if_neg (by omega)]
    rfl

variable {values : List Nat}

/-- Nothing that is stepped over is forbidden. -/
theorem not_forbidden_of_stepOver (more : ∀ uc ∈ values, uc ≠ 0) {off fuel : Nat}
    {there : List (Nat × Nat)} (steps : stepOver off fuel (putCps values ++ [0]) = some there) :
    ∀ uc ∈ values, ¬ Forbidden uc := by
  induction values generalizing off fuel there with
  | nil => simp
  | cons uc values ih =>
    cases fuel with
    | zero => cases steps
    | succ fuel =>
      have allowed : ¬ Forbidden uc := by
        intro forbidden
        obtain ⟨rc, rest, refused⟩ := getCpExInternal_forbidden forbidden (putCps values ++ [0])
        rw [putCps_cons, append_assoc, stepOver, refused] at steps
        cases steps
      have put : ∃ uc', uc' ≠ 0 ∧ rtStrGetCpExInternal (rtStrPutCp uc ++ (putCps values ++ [0])) =
          some (.ok uc', putCps values ++ [0]) := by
        obtain ⟨valid, same⟩ := put_shown (more uc mem_cons_self) allowed
        rw [same]
        exact ⟨shown uc, Nat.ne_of_gt valid.1, getCpExInternal_put valid _⟩
      obtain ⟨uc', some, got⟩ := put
      rw [putCps_cons, append_assoc, stepOver, got] at steps
      simp only [if_neg some, Option.map_eq_some_iff] at steps
      obtain ⟨rest, steps, -⟩ := steps
      intro uc'' member
      obtain rfl | member := mem_cons.mp member
      · exact allowed
      · exact ih (fun uc' within => more uc' (mem_cons_of_mem _ within)) steps uc'' member

theorem putCps_shown (some : ∀ uc ∈ values, uc ≠ 0) (allowed : ∀ uc ∈ values, ¬ Forbidden uc) :
    putCps values = putCps (values.map shown) := by
  induction values with
  | nil => rfl
  | cons uc values ih =>
    rw [map_cons, putCps_cons, putCps_cons,
      ih (fun uc' member => some uc' (mem_cons_of_mem _ member))
        fun uc' member => allowed uc' (mem_cons_of_mem _ member),
      (put_shown (some uc mem_cons_self) (allowed uc mem_cons_self)).2]

/-- A string that fits into memory is read as it was written just if no value is a surrogate or an
endian indicator. -/
theorem fitTogether_iff {values : List UInt32} (more : ∀ uc ∈ values, uc ≠ 0)
    (inMemory : (putAll values).length < 2 ^ 64) :
    FitTogether values ↔ ∀ uc ∈ values, ¬ Forbidden uc.toNat := by
  have nonzero : ∀ uc ∈ values.map UInt32.toNat, uc ≠ 0 := by
    intro uc member zero
    obtain ⟨value, within, rfl⟩ := List.mem_map.mp member
    exact more value within (UInt32.toNat_inj.mp zero)
  constructor
  · rintro ⟨-, there, steps, -⟩ uc member
    exact not_forbidden_of_stepOver nonzero steps uc.toNat (List.mem_map_of_mem member)
  · intro allowed
    have allowed' : ∀ uc ∈ values.map UInt32.toNat, ¬ Forbidden uc := by
      intro uc member
      obtain ⟨value, within, rfl⟩ := List.mem_map.mp member
      exact allowed value within
    have same := putCps_shown nonzero allowed'
    have valid : ∀ uc ∈ (values.map UInt32.toNat).map shown, IsCp uc := by
      intro uc member
      obtain ⟨value, within, rfl⟩ := List.mem_map.mp member
      exact (put_shown (nonzero value within) (allowed' value within)).1
    rw [putAll] at inMemory
    rw [same] at inMemory
    refine ⟨?_, _, by rw [putAll, same]; exact stepOver_put valid (Nat.lt_succ_self _) 0, ?_, ?_⟩
    · have accepts : Accepts (fun _ _ => (.ok 1 : Except Error Nat))
          (putCps ((values.map UInt32.toNat).map shown) ++ [0]) rtstrMax
          ((values.map UInt32.toNat).map shown) [0] _ :=
        ⟨valid, rfl, Nat.le_sub_one_of_lt inMemory, .inr rfl, _, mapM_one _, rfl⟩
      rw [rtStrValidateEncoding, rtUtf8Length, putAll, same,
        validate_ok.mpr ⟨_, _, accepts, rfl⟩]
      rfl
    · rw [map_snd_zip (by rw [offsets_length]), List.map_map]
      rfl
    · rw [putAll, same, map_fst_zip (by rw [offsets_length])]
      exact stepBack_put valid (Nat.lt_succ_self _)

theorem fitTogether_iff_euro :
    FitTogether [0x41, 0x20ac] ↔ ∀ uc ∈ [(0x41 : UInt32), 0x20ac], ¬ Forbidden uc.toNat := by
  have length : (putAll [0x41, 0x20ac]).length = 4 := by decide
  exact fitTogether_iff (by simp) (by omega)

/-- A surrogate is written, and refused. -/
theorem not_fitTogether_surrogate : ¬ FitTogether [0xd800] := by
  rintro ⟨accepted, -⟩
  have put : putAll [0xd800] = [0xed, 0xa0, 0x80] := by decide
  rw [put, rtStrValidateEncoding, rtUtf8Length, cons_append, validate] at accepted
  revert accepted
  decide

end VBox.Runtime.Utf8
