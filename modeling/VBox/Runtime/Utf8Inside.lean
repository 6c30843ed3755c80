import VBox.Runtime.Utf16
import VBox.Runtime.Utf8Steps

/-!
Validation up to the terminator.

The last octet of a sequence is examined first. If the string ends in the middle of a sequence that
lacks more than one octet, it is behind the terminator.
-/

namespace VBox.Runtime.Utf8

open Option (map_eq_none_iff map_eq_some_iff map_none map_some some)
open List
open VBox.Runtime.Utf16 (rtUtf8CalcUtf16Length)

/-! ### Purging -/

variable {psz : List UInt8}

theorem getCpExInternal_shorter {rest : List UInt8} {got : Except Error Nat}
    (step : rtStrGetCpExInternal psz = some (got, rest)) : rest.length < psz.length := by
  cases psz with
  | nil => cases step
  | cons uch psz =>
    rw [rtStrGetCpExInternal] at step
    split at step
    · cases step
      exact Nat.lt_succ_self _
    · split at step
      · cases step
        exact Nat.lt_succ_self _
      · obtain ⟨found, -, step⟩ := map_eq_some_iff.mp step
        cases found with
        | error rc =>
          cases step
          exact Nat.lt_succ_self _
        | ok uc =>
          cases step
          rw [length_drop, length_cons]
          omega

def chQuestion : UInt8 := 0x3f

/-- `RTStrPurgeEncoding`: what is left in the memory, and the number of errors. -/
def rtStrPurgeEncoding (psz : List UInt8) : Option (List UInt8 × Nat) :=
  match _step : rtStrGetCpExInternal psz with
  | none => none
  | some (.ok uc, rest) =>
    if uc = 0 then some (psz, 0)
    else
      (rtStrPurgeEncoding rest).map fun purged =>
        (psz.take (psz.length - rest.length) ++ purged.1, purged.2)
  | some (.error _, rest) =>
    (rtStrPurgeEncoding rest).map fun purged => (chQuestion :: purged.1, purged.2 + 1)
termination_by psz.length
decreasing_by
  · exact getCpExInternal_shorter ‹_›
  · exact getCpExInternal_shorter ‹_›

/-- Well-formed sequences are kept, and any other octet becomes a question mark. -/
inductive Purged : List UInt8 → List UInt8 → Prop where
  | done : Purged [] []
  | keep {uc : Nat} {psz purged : List UInt8} (valid : IsCp uc) (rest : Purged psz purged) :
    Purged (rtStrPutCp uc ++ psz) (rtStrPutCp uc ++ purged)
  | replace {uch : UInt8} {psz purged : List UInt8}
    (invalid : ∀ uc, IsCp uc → ¬ rtStrPutCp uc <+: uch :: psz) (rest : Purged psz purged) :
    Purged (uch :: psz) (chQuestion :: purged)

/-- No octet behind the terminator of a string is examined, and purging it makes it valid. -/
structure Inside (psz : List UInt8) : Prop where
  length : rtUtf8Length (psz ++ [0]) rtstrMax ≠ none
  utf16Length : rtUtf8CalcUtf16Length (psz ++ [0]) rtstrMax ≠ none
  purge : ∃ purged cErrors, rtStrPurgeEncoding (psz ++ [0]) = some (purged ++ [0], cErrors) ∧
    Purged psz purged ∧ rtStrValidateEncoding (purged ++ [0]) = some (.ok ())

/-- No sequence at the end of a string lacks more than one octet. -/
def AlmostWhole (psz : List UInt8) : Prop :=
  ∀ before uch after, psz = before ++ uch :: after →
    ∀ cb, sequenceLength uch = some cb → cb ≤ after.length + 2

/-! ### Faults -/

theorem checkTail_none {n : Nat} : checkTail psz n = none ↔ psz.length < n := by
  induction n with
  | zero => simp [checkTail]
  | succ n ih =>
    rw [checkTail, Option.bind_eq_none_iff]
    constructor
    · intro fault
      by_contra inside
      have octet := getElem?_eq_getElem (Nat.not_lt.mp inside : n + 1 ≤ psz.length)
      have rest := fault _ octet
      split at rest
      · have := ih.mp rest
        omega
      · cases rest
    · intro outside ch octet
      obtain ⟨within, rfl⟩ := List.getElem?_eq_some_iff.mp octet
      split
      · exact absurd within (by omega)
      · omega

variable {cb : Nat} {uch : UInt8}

theorem getSequence_none : getSequence cb uch psz = none ↔ psz.length < cb - 1 := by
  rw [getSequence, map_eq_none_iff, checkTail_none]

variable {uc : Nat}

/-- Octets that continue a sequence are not the terminator. -/
theorem sequence_inside (got : getSequence cb uch (psz ++ [0]) = some (.ok uc)) :
    cb - 1 ≤ psz.length ∧ (psz ++ [0]).drop (cb - 1) = psz.drop (cb - 1) ++ [0] ∧
      (psz.take (cb - 1)).all isContinuation = true := by
  rw [getSequence, map_eq_some_iff] at got
  obtain ⟨continues, tail, got⟩ := got
  split at got
  · rename_i all
    rw [all] at tail
    obtain ⟨within, all⟩ := checkTail_true.mp tail
    have short : cb - 1 ≤ psz.length := by
      by_contra long
      have whole : cb - 1 = (psz ++ [0]).length := by
        rw [length_append, length_singleton] at *
        omega
      rw [whole, take_length, all_append, Bool.and_eq_true_iff] at all
      exact absurd all.2 (by decide)
    rw [take_append_of_le_length short] at all
    exact ⟨short, drop_append_of_le_length short, all⟩
  · cases got

theorem AlmostWhole.head (almost : AlmostWhole (uch :: psz)) {cb : Nat}
    (length : sequenceLength uch = some cb) : ¬ (psz ++ [0]).length < cb - 1 := by
  have := almost [] uch psz rfl cb length
  rw [length_append, length_singleton]
  omega

theorem AlmostWhole.drop (almost : AlmostWhole psz) (n : Nat) : AlmostWhole (psz.drop n) := by
  intro before uch after split cb length
  refine almost (psz.take n ++ before) uch after ?_ cb length
  rw [append_assoc, ← split, take_append_drop]

theorem AlmostWhole.tail (almost : AlmostWhole (uch :: psz)) : AlmostWhole psz := almost.drop 1

/-- A validation stays inside. -/
theorem validate_inside {ε : Type} (refuse : Error → ε) (weigh : Nat → Nat → Except ε Nat)
    {psz : List UInt8} (almost : AlmostWhole psz) (cch : Nat) :
    validate refuse weigh (psz ++ [0]) cch ≠ none := by
  induction size : psz.length using Nat.strong_induction_on generalizing psz cch with
  | _ _ ih =>
  rw [validate.eq_def]
  split
  · simp
  · cases psz with
    | nil => simp
    | cons uch psz =>
      have step {rest : List UInt8} (shorter : rest.length ≤ psz.length) (almost : AlmostWhole rest)
          (cch' : Nat) : validate refuse weigh (rest ++ [0]) cch' ≠ none :=
        ih rest.length (by rw [← size]; exact Nat.lt_succ_of_le shorter) almost cch' rfl
      rw [cons_append]
      simp only
      split
      · simp
      · split
        · rw [ne_eq, map_eq_none_iff]
          exact step (Nat.le_refl _) almost.tail _
        · split
          · simp
          · rename_i cb length
            split
            · simp
            · rw [ne_eq, Option.bind_eq_none_iff]
              intro fault
              cases got : getSequence cb uch (psz ++ [0]) with
              | none => exact almost.head length (getSequence_none.mp got)
              | some got' =>
                have rest := fault got' got
                cases got' with
                | error rc => cases rest
                | ok uc =>
                  obtain ⟨-, behind, -⟩ := sequence_inside got
                  simp only [behind] at rest
                  split at rest
                  · cases rest
                  · exact step (by simp) (almost.tail.drop _) _ (map_eq_none_iff.mp rest)

/-! ### Steps through a string -/

/-- One step from a place before the terminator. -/
inductive Step (psz : List UInt8) : Option (Except Error Nat × List UInt8) → Prop where
  | fault {uch : UInt8} {after : List UInt8} {cb : Nat} (start : psz = uch :: after)
    (length : sequenceLength uch = some cb) (lacks : after.length + 2 < cb) : Step psz none
  | keep {uc : Nat} {after : List UInt8} (valid : IsCp uc) (start : psz = rtStrPutCp uc ++ after) :
    Step psz (some (.ok uc, after ++ [0]))
  | skip {uch : UInt8} {after : List UInt8} (rc : Error) (start : psz = uch :: after)
    (invalid : ∀ uc, IsCp uc → ¬ rtStrPutCp uc <+: psz)
    (room : ∀ cb, sequenceLength uch = some cb → cb ≤ after.length + 2) :
    Step psz (some (.error rc, after ++ [0]))

theorem getCpExInternal_step (plain : (0 : UInt8) ∉ psz) (more : psz ≠ []) :
    Step psz (rtStrGetCpExInternal (psz ++ [0])) := by
  obtain ⟨uch, after, rfl⟩ := exists_cons_of_ne_nil more
  have refused {rc : Error} {rest : List UInt8}
      (error : rtStrGetCpExInternal (uch :: (after ++ [0])) = some (.error rc, rest)) :
      ∀ uc, IsCp uc → ¬ rtStrPutCp uc <+: uch :: after := by
    rintro uc valid ⟨behind, same⟩
    have got := getCpExInternal_put valid (behind ++ [0])
    rw [← append_assoc, same, cons_append, error] at got
    cases got
  rw [cons_append]
  cases outcome : rtStrGetCpExInternal (uch :: (after ++ [0])) with
  | none =>
    rw [rtStrGetCpExInternal] at outcome
    split at outcome
    · cases outcome
    · cases length : sequenceLength uch with
      | none => rw [length] at outcome; cases outcome
      | some cb =>
        rw [length] at outcome
        have short := getSequence_none.mp (map_eq_none_iff.mp outcome)
        rw [length_append, length_singleton] at short
        exact .fault rfl length (by omega)
  | some result =>
    obtain ⟨got, rest⟩ := result
    cases got with
    | error rc =>
      have skipped : rest = after ++ [0] := by
        rw [rtStrGetCpExInternal] at outcome
        split at outcome
        · cases outcome
        · split at outcome
          · cases outcome
            rfl
          · obtain ⟨found, -, outcome⟩ := map_eq_some_iff.mp outcome
            cases found <;> cases outcome
            rfl
      rw [skipped]
      refine .skip rc rfl (refused outcome) fun cb length => ?_
      by_contra lacks
      have big : ¬ uch < 0x80 := fun small => by
        rw [sequenceLength, if_pos (UInt8.lt_trans small (by decide))] at length
        cases length
      have fault : getSequence cb uch (after ++ [0]) = none := by
        rw [getSequence_none, length_append, length_singleton]
        omega
      rw [rtStrGetCpExInternal, if_neg big, length] at outcome
      simp only [fault, map_none] at outcome
      cases outcome
    | ok uc =>
      rw [rtStrGetCpExInternal] at outcome
      split at outcome
      · rename_i small
        cases outcome
        have value : uch.toNat < 0x80 := by simpa [UInt8.lt_iff_toNat_lt] using small
        have some : 0 < uch.toNat := by
          refine Nat.pos_of_ne_zero fun zero => plain ?_
          rw [show uch = 0 from UInt8.toNat_inj.mp zero]
          exact mem_cons_self
        exact .keep (isCp_plain some value) (by rw [rtStrPutCp_plain value]; rfl)
      · rename_i big
        cases length : sequenceLength uch with
        | none => rw [length] at outcome; cases outcome
        | some cb =>
          rw [length] at outcome
          obtain ⟨found, tail, outcome⟩ := map_eq_some_iff.mp outcome
          cases found with
          | error rc => cases outcome
          | ok uc' =>
            cases outcome
            obtain ⟨-, behind, -⟩ := sequence_inside tail
            obtain ⟨valid, -, -, same⟩ := getSequence_put big length tail
            rw [behind, ← append_assoc, ← cons_append] at same
            rw [behind]
            exact .keep valid (append_cancel_right same)

/-! ### Exactness -/

/-- The first octet of a code point tells the number of those that follow. -/
theorem rtStrPutCp_tail (valid : IsCp uc) :
    ∃ uch tail, rtStrPutCp uc = uch :: tail ∧ tail.all isContinuation = true ∧
      ∀ cb, sequenceLength uch = some cb → cb = tail.length + 1 := by
  by_cases plain : uc < 0x80
  · obtain ⟨uch, put, -, small, -⟩ := put_plain valid plain
    refine ⟨uch, [], put, rfl, fun cb length => ?_⟩
    rw [sequenceLength, if_pos (UInt8.lt_trans small (by decide))] at length
    cases length
  · obtain ⟨uch, tail, put, -, whole, continues, -, -⟩ :=
      put_sequence valid (Nat.le_of_not_lt plain)
    exact ⟨uch, tail, put, continues, fun cb length => some.inj (length.symm.trans whole)⟩

theorem not_continuation_of_sequence (length : sequenceLength uch = some cb) :
    isContinuation uch = false := by
  have all : ∀ n : Fin 256, ∀ cb ∈ sequenceLength (UInt8.ofNat n),
      isContinuation (UInt8.ofNat n) = false := by decide +kernel
  have this := all ⟨uch.toNat, UInt8.toNat_lt uch⟩
  simp only [UInt8.ofNat_toNat] at this
  exact this cb length

/-- A string is almost whole if what follows a code point is. -/
theorem almostWhole_put (valid : IsCp uc) (almost : AlmostWhole psz) :
    AlmostWhole (rtStrPutCp uc ++ psz) := by
  obtain ⟨first, tail, put, continues, whole⟩ := rtStrPutCp_tail valid
  rw [put, cons_append]
  intro before uch after split cb length
  cases before with
  | nil =>
    cases split
    rw [whole cb length, length_append]
    omega
  | cons first' before =>
    have behind : tail ++ psz = before ++ uch :: after := by
      simpa using (cons.inj split).2
    obtain ⟨middle, rfl, same⟩ | ⟨middle, rfl, same⟩ := append_eq_append_iff.mp behind
    · exact almost middle uch after same cb length
    · cases middle with
      | nil => exact almost [] uch after same.symm cb length
      | cons uch' middle =>
        obtain ⟨rfl, -⟩ := cons.inj same
        rw [all_append, all_cons, not_continuation_of_sequence length] at continues
        simp at continues

theorem almostWhole_nil : AlmostWhole [] := by
  intro before uch after split
  simp at split

theorem almostWhole_skip (room : ∀ cb, sequenceLength uch = some cb → cb ≤ psz.length + 2)
    (almost : AlmostWhole psz) : AlmostWhole (uch :: psz) := by
  intro before uch' after split cb length
  cases before with
  | nil =>
    cases split
    exact room cb length
  | cons first before => exact almost before uch' after (cons.inj split).2 cb length

theorem purge_eq (psz : List UInt8) :
    rtStrPurgeEncoding psz =
      match rtStrGetCpExInternal psz with
      | none => none
      | some (.ok uc, rest) =>
        if uc = 0 then some (psz, 0)
        else
          (rtStrPurgeEncoding rest).map fun purged =>
            (psz.take (psz.length - rest.length) ++ purged.1, purged.2)
      | some (.error _, rest) =>
        (rtStrPurgeEncoding rest).map fun purged => (chQuestion :: purged.1, purged.2 + 1) := by
  rw [rtStrPurgeEncoding.eq_def]
  split <;> simp only [*]

/-- If purging stays inside, no sequence at the end lacks more than one octet. -/
theorem almostWhole_of_purge (plain : (0 : UInt8) ∉ psz)
    (inside : rtStrPurgeEncoding (psz ++ [0]) ≠ none) : AlmostWhole psz := by
  induction size : psz.length using Nat.strong_induction_on generalizing psz with
  | _ _ ih =>
  by_cases more : psz = []
  · exact more ▸ almostWhole_nil
  · have step := getCpExInternal_step plain more
    rw [purge_eq] at inside
    generalize rtStrGetCpExInternal (psz ++ [0]) = outcome at step inside
    cases step with
    | fault => exact absurd rfl inside
    | @keep uc after valid start =>
      subst start
      have shorter : after.length < (rtStrPutCp uc ++ after).length := by
        have := rtStrPutCp_length_pos uc
        rw [length_append]
        omega
      refine almostWhole_put valid (ih _ (size ▸ shorter)
        (fun zero => plain (mem_append_right _ zero)) (fun fault => inside ?_) rfl)
      simp only [if_neg (Nat.ne_of_gt valid.1), fault, map_none]
    | @skip uch after rc start invalid room =>
      subst start
      refine almostWhole_skip room (ih after.length (by simp [← size])
        (fun zero => plain (mem_cons_of_mem _ zero)) (fun fault => inside ?_) rfl)
      simp only [fault, map_none]

/-- A string that is almost whole is purged inside, and what is left is encoded code points. -/
theorem purge_inside (plain : (0 : UInt8) ∉ psz) (almost : AlmostWhole psz) :
    ∃ cps cErrors, (∀ uc ∈ cps, IsCp uc) ∧
      rtStrPurgeEncoding (psz ++ [0]) = some (putCps cps ++ [0], cErrors) ∧
        Purged psz (putCps cps) ∧ (putCps cps).length = psz.length := by
  induction size : psz.length using Nat.strong_induction_on generalizing psz with
  | _ _ ih =>
  by_cases more : psz = []
  · subst more
    subst size
    refine ⟨[], 0, by simp, ?_, .done, rfl⟩
    rw [purge_eq]
    rfl
  · have step := getCpExInternal_step plain more
    generalize outcome : rtStrGetCpExInternal (psz ++ [0]) = result at step
    cases step with
    | @fault uch after cb start length lacks =>
      exact absurd (almost [] uch after start cb length) (by omega)
    | @keep uc after valid start =>
      subst start
      have length : (rtStrPutCp uc ++ after).length = (rtStrPutCp uc).length + after.length :=
        length_append
      have some := rtStrPutCp_length_pos uc
      have almost' : AlmostWhole after := by
        have behind := almost.drop (rtStrPutCp uc).length
        rwa [drop_left] at behind
      obtain ⟨cps, cErrors, valid', purged, kept, same⟩ := ih after.length (by omega)
        (fun zero => plain (mem_append_right _ zero)) almost' rfl
      refine ⟨uc :: cps, cErrors, by simpa using ⟨valid, valid'⟩, ?_, ?_, ?_⟩
      · have octets : (rtStrPutCp uc ++ (after ++ [0])).take
            ((rtStrPutCp uc ++ (after ++ [0])).length - (after ++ [0]).length) =
              rtStrPutCp uc := by
          rw [length_append, Nat.add_sub_cancel, take_left]
        rw [purge_eq, outcome, append_assoc]
        simp only [if_neg (Nat.ne_of_gt valid.1), purged, map_some, octets, putCps_cons,
          append_assoc]
      · rw [putCps_cons]
        exact .keep valid kept
      · rw [putCps_cons, length_append, same, ← length, size]
    | @skip uch after rc start invalid room =>
      subst start
      obtain ⟨cps, cErrors, valid', purged, kept, same⟩ := ih after.length (by simp [← size])
        (fun zero => plain (mem_cons_of_mem _ zero)) almost.tail rfl
      refine ⟨0x3f :: cps, cErrors + 1, ?_, ?_, ?_, ?_⟩
      · exact forall_mem_cons.mpr ⟨isCp_plain (by decide) (by decide), valid'⟩
      · rw [purge_eq, outcome]
        simp only [purged, map_some]
        rfl
      · rw [putCps_cons]
        exact .replace invalid kept
      · rw [putCps_cons, length_append, same, ← size, length_cons, Nat.add_comm]
        rfl

/-- A terminated string is validated and purged without a look behind the terminator just if no
sequence at its end lacks more than one octet. -/
theorem inside_iff {psz : List UInt8} (plain : (0 : UInt8) ∉ psz)
    (inMemory : psz.length < 2 ^ 64) : Inside psz ↔ AlmostWhole psz := by
  constructor
  · rintro ⟨-, -, purged, cErrors, purge, -⟩
    exact almostWhole_of_purge plain (by rw [purge]; simp)
  · intro almost
    obtain ⟨cps, cErrors, valid, purge, purged, same⟩ := purge_inside plain almost
    refine ⟨validate_inside _ _ almost _, validate_inside _ _ almost _, putCps cps, cErrors, purge,
      purged, ?_⟩
    have accepts : Accepts (fun _ _ => (.ok 1 : Except Error Nat)) (putCps cps ++ [0]) rtstrMax cps
        [0] _ :=
      ⟨valid, rfl, Nat.le_sub_one_of_lt (same ▸ inMemory), .inr rfl, _, mapM_one _, rfl⟩
    rw [rtStrValidateEncoding, rtUtf8Length, validate_ok.mpr ⟨_, _, accepts, rfl⟩]
    rfl

theorem inside_iff_one : Inside [0xe2] ↔ AlmostWhole [0xe2] :=
  inside_iff (by decide) (by decide)

/-- A string that ends with the first octet of three. -/
theorem not_inside_first : ¬ Inside [0xe2] := by
  rintro ⟨-, -, purged, cErrors, purge, -⟩
  have almost := almostWhole_of_purge (show (0 : UInt8) ∉ [0xe2] by decide) (by rw [purge]; simp)
  exact absurd (almost [] 0xe2 [] rfl 3 rfl) (by decide)

end VBox.Runtime.Utf8
