import VBox.Runtime.Utf8Memory

/-!
Decoding against validation.

A sequence of five octets takes six from the limit of the decoder. Where the limit is far behind the
terminator this does no harm; at the limit the count wraps around and the decoder goes on.
-/

namespace VBox.Runtime.Utf8

open List

/-! ### Statements -/

/-- The code points of some steps with `RTStrGetCpNEx`. -/
def stepCps : Nat → List UInt8 → Nat → Option (List Nat)
  | 0, _, _ => some []
  | n + 1, psz, cch =>
    match rtStrGetCpNExInternal psz cch with
    | some (.ok uc, psz, cch) => (stepCps n psz cch).map (uc :: ·)
    | _ => none

/-- How many octets may be examined: those before the limit, up to the terminator. -/
def examined (psz : List UInt8) (cch : Nat) : Nat := min cch (psz.idxOf 0 + 1)

/-- What is accepted is decoded as it is stepped over, and nothing else is examined. -/
def DecodeAgrees (psz : List UInt8) (cch : UInt64) : Prop :=
  ∀ n actual, rtUtf8Length psz cch.toNat = some (.ok (n, actual)) →
    ∃ cps, stepCps n psz cch.toNat = some cps ∧
      (∀ cCps, n ≤ cCps →
        rtUtf8Decode (psz.take (examined psz cch.toNat)) cch cCps = some (cps, true)) ∧
      ∀ cCps, rtStrToUniEx (psz.take (examined psz cch.toNat)) cch false true cCps =
          some (.ok cps) ∧
        (n < cCps → rtStrToUniEx (psz.take (examined psz cch.toNat)) cch true true cCps =
          some (.ok cps))

/-- The code point is encoded in five octets. -/
def IsFive (uc : Nat) : Prop := 0x200000 ≤ uc ∧ uc ≤ 0x3ffffff

instance (uc : Nat) : Decidable (IsFive uc) := inferInstanceAs (Decidable (_ ∧ _))

/-- The decoder's count, `fives` behind, does not come to zero in front of a code point, and at the
limit it is right. -/
def KeepsCount : Nat → Nat → List Nat → Prop
  | cch, fives, [] => fives = 0 ∨ 0 < cch
  | cch, fives, uc :: cps =>
    cch ≠ fives ∧
      KeepsCount (cch - (rtStrPutCp uc).length) (if IsFive uc then fives + 1 else fives) cps

/-! ### Steps -/

variable {uc : Nat}

theorem length_five (valid : IsCp uc) : (rtStrPutCp uc).length = 5 ↔ IsFive uc := by
  unfold rtStrPutCp IsFive
  obtain ⟨-, most, -⟩ := valid
  split_ifs <;> simp <;> omega

theorem rtStrPutCp_length_pos (uc : Nat) : 0 < (rtStrPutCp uc).length :=
  length_pos_of_ne_nil (rtStrPutCp_ne_nil uc)

theorem rtStrPutCp_length_le (uc : Nat) : (rtStrPutCp uc).length ≤ 6 := by
  unfold rtStrPutCp
  split_ifs <;> simp

variable {uch : UInt8}

/-- The bits of a first octet. -/
theorem decodeLength_first {cb : Nat} (length : sequenceLength uch = some cb) :
    uch &&& 0x80 ≠ 0 ∧ decodeLength uch = cb := by
  have all : ∀ n : Fin 256, ∀ cb ∈ sequenceLength (UInt8.ofNat n),
      UInt8.ofNat n &&& 0x80 ≠ 0 ∧ decodeLength (UInt8.ofNat n) = cb := by decide +kernel
  have this := all ⟨uch.toNat, UInt8.toNat_lt uch⟩
  simp only [UInt8.ofNat_toNat] at this
  exact this cb length

theorem plain_bit (plain : uch < 0x80) : uch &&& 0x80 = 0 := by
  have all : ∀ n : Fin 256, UInt8.ofNat n < 0x80 → UInt8.ofNat n &&& 0x80 = 0 := by decide +kernel
  have this := all ⟨uch.toNat, UInt8.toNat_lt uch⟩
  simp only [UInt8.ofNat_toNat] at this
  exact this plain

/-- A code point of a plain character. -/
theorem put_plain (valid : IsCp uc) (plain : uc < 0x80) :
    ∃ uch : UInt8, rtStrPutCp uc = [uch] ∧ uch ≠ 0 ∧ uch < 0x80 ∧ uch.toNat = uc := by
  have value : (UInt8.ofNat uc).toNat = uc :=
    UInt8.toNat_ofNat_of_lt' (Nat.lt_trans plain (by decide))
  refine ⟨UInt8.ofNat uc, if_pos plain, fun zero => ?_, ?_, value⟩
  · rw [zero] at value
    exact Nat.ne_of_gt valid.1 value.symm
  · rw [UInt8.lt_iff_toNat_lt, value]
    exact plain

variable {cch : Nat}

/-- A code point that has been put is stepped over. -/
theorem getCpNEx_put (valid : IsCp uc) (inside : (rtStrPutCp uc).length ≤ cch) (psz : List UInt8) :
    rtStrGetCpNExInternal (rtStrPutCp uc ++ psz) cch =
      some (.ok uc, psz, cch - (rtStrPutCp uc).length) := by
  by_cases plain : uc < 0x80
  · obtain ⟨uch, put, -, small, value⟩ := put_plain valid plain
    rw [put] at inside ⊢
    rw [singleton_append, rtStrGetCpNExInternal, if_neg (by simp at inside; omega),
      if_pos small, value]
    rfl
  · obtain ⟨uch, tail, put, big, length, -, -, got⟩ := put_sequence valid (Nat.le_of_not_lt plain)
    rw [put] at inside ⊢
    rw [length_cons] at inside
    rw [cons_append, rtStrGetCpNExInternal, if_neg (by omega), if_neg big, length]
    simp only [if_neg (Nat.not_lt.mpr inside), got, Option.map_some, Nat.add_sub_cancel,
      drop_left, length_cons]

variable {cCps : Nat}

/-- A code point that has been put is decoded; in five octets it takes six from the limit. -/
theorem decode_put {cch : UInt64} (valid : IsCp uc) (more : cch ≠ 0) (psz : List UInt8) :
    rtUtf8Decode (rtStrPutCp uc ++ psz) cch (cCps + 1) =
      (rtUtf8Decode psz (cch - decodeStep (rtStrPutCp uc).length) cCps).map
        fun rest => (uc :: rest.1, rest.2) := by
  by_cases plain : uc < 0x80
  · obtain ⟨uch, put, zero, small, value⟩ := put_plain valid plain
    rw [put, singleton_append, rtUtf8Decode, if_neg more]
    simp only [if_neg zero, if_pos (plain_bit small), value]
    rfl
  · obtain ⟨uch, tail, put, big, length, -, bits, -⟩ := put_sequence valid (Nat.le_of_not_lt plain)
    obtain ⟨bit, same⟩ := decodeLength_first length
    have zero : uch ≠ 0 := fun h => big (h ▸ by decide)
    have inside : ¬ (tail ++ psz).length < tail.length := by
      rw [length_append]
      omega
    rw [put, cons_append, rtUtf8Decode, if_neg more]
    simp only [if_neg zero, if_neg bit, same, Nat.add_sub_cancel, if_neg inside, drop_left,
      take_left, bits, length_cons]

/-! ### Runs -/

theorem stepCps_put {cps : List Nat} (valid : ∀ uc ∈ cps, IsCp uc)
    (inside : (putCps cps).length ≤ cch) (rest : List UInt8) :
    stepCps cps.length (putCps cps ++ rest) cch = some cps := by
  induction cps generalizing cch with
  | nil => rfl
  | cons uc cps ih =>
    rw [putCps_cons, length_append] at inside
    rw [putCps_cons, append_assoc, length_cons, stepCps,
      getCpNEx_put (valid uc mem_cons_self) (by omega)]
    have others := ih (fun uc' member => valid uc' (mem_cons_of_mem _ member))
      (show (putCps cps).length ≤ cch - (rtStrPutCp uc).length by omega)
    simp only [others, Option.map_some]

/-- Code points up to the limit, or up to a terminator before it. -/
def upTo (cch : Nat) (cps : List Nat) : List UInt8 :=
  putCps cps ++ if (putCps cps).length = cch then [] else [0]

theorem upTo_cons {cps : List Nat} (inside : (rtStrPutCp uc).length ≤ cch) :
    upTo cch (uc :: cps) = rtStrPutCp uc ++ upTo (cch - (rtStrPutCp uc).length) cps := by
  have same : (putCps (uc :: cps)).length = cch ↔
      (putCps cps).length = cch - (rtStrPutCp uc).length := by
    rw [putCps_cons, length_append]
    omega
  rw [upTo, upTo, putCps_cons, append_assoc, ← putCps_cons]
  simp only [same]

/-- The limit as the decoder counts it. -/
def Behind (cch fives : Nat) (counted : UInt64) : Prop :=
  cch + fives < 2 ^ 64 ∧ (counted.toNat + fives) % 2 ^ 64 = cch

variable {fives : Nat} {counted : UInt64}

theorem Behind.zero (behind : Behind cch fives counted) : counted = 0 ↔ cch = fives := by
  obtain ⟨bound, value⟩ := behind
  have bounded := counted.toNat_lt
  rw [← UInt64.toNat_inj, UInt64.toNat_zero]
  omega

theorem Behind.step (behind : Behind cch fives counted) (valid : IsCp uc)
    (inside : (rtStrPutCp uc).length ≤ cch) :
    Behind (cch - (rtStrPutCp uc).length) (if IsFive uc then fives + 1 else fives)
      (counted - decodeStep (rtStrPutCp uc).length) := by
  obtain ⟨bound, value⟩ := behind
  have some := rtStrPutCp_length_pos uc
  have most := rtStrPutCp_length_le uc
  have five := length_five valid
  rw [Behind, UInt64.toNat_sub, decodeStep]
  by_cases is : IsFive uc
  · have length := five.mpr is
    have six : (6 : UInt64).toNat = 6 := rfl
    rw [if_pos is, if_pos length, six, length]
    exact ⟨by omega, by omega⟩
  · rw [if_neg is, if_neg fun h => is (five.mp h), UInt64.toNat_ofNat']
    exact ⟨by omega, by omega⟩

/-- The decoder comes through just if it keeps the count. -/
theorem decode_upTo {cps : List Nat} (valid : ∀ uc ∈ cps, IsCp uc)
    (inside : (putCps cps).length ≤ cch) (behind : Behind cch fives counted)
    (room : cps.length ≤ cCps) :
    rtUtf8Decode (upTo cch cps) counted cCps = some (cps, true) ↔ KeepsCount cch fives cps := by
  induction cps generalizing cch fives counted cCps with
  | nil =>
    have zero := behind.zero
    rw [KeepsCount, upTo]
    by_cases limit : cch = 0
    · subst limit
      rw [if_pos (by rfl), append_nil, show putCps [] = [] from rfl, rtUtf8Decode.eq_def]
      by_cases none : fives = 0
      · rw [if_pos (zero.mpr none.symm)]
        exact ⟨fun _ => .inl none, fun _ => rfl⟩
      · rw [if_neg fun h => none (zero.mp h).symm]
        simp [none]
    · rw [if_neg (fun h : (putCps []).length = cch => limit h.symm), show putCps [] = [] from rfl,
        nil_append, rtUtf8Decode.eq_def]
      have more : fives = 0 ∨ 0 < cch := .inr (Nat.pos_of_ne_zero limit)
      split
      · simp [more]
      · cases cCps <;> simp [more]
  | cons uc cps ih =>
    rw [putCps_cons, length_append] at inside
    obtain ⟨cCps, rfl⟩ : ∃ n, cCps = n + 1 := Nat.exists_eq_add_one.mpr (by simp at room; omega)
    have first := valid uc mem_cons_self
    rw [upTo_cons (by omega), KeepsCount]
    by_cases lost : cch = fives
    · have stop : counted = 0 := behind.zero.mpr lost
      rw [rtUtf8Decode.eq_def, if_pos stop]
      simp [lost]
    · have more : counted ≠ 0 := fun h => lost (behind.zero.mp h)
      have others := ih (fun uc' member => valid uc' (mem_cons_of_mem _ member))
        (show (putCps cps).length ≤ cch - (rtStrPutCp uc).length by omega)
        (behind.step first (by omega)) (show cps.length ≤ cCps by simpa using room)
      rw [decode_put first more, ← others]
      simp only [Option.map_eq_some_iff, Prod.mk.injEq, cons.injEq, true_and, ne_eq, lost,
        not_false_iff]
      constructor
      · rintro ⟨⟨rest, done⟩, decoded, rfl, rfl⟩
        exact decoded
      · exact fun decoded => ⟨_, decoded, rfl, rfl⟩

/-! ### Agreement -/

section Agreement

variable {psz rest : List UInt8} {cps : List Nat} {n : Nat}

theorem mapM_one (cps : List Nat) :
    cps.mapM (weight fun _ _ => (.ok 1 : Except Error Nat)) =
      .ok (replicate cps.length 1) := by
  have one (uc : Nat) : weight (fun _ _ => (.ok 1 : Except Error Nat)) uc = .ok 1 := ite_self _
  induction cps with
  | nil => rfl
  | cons uc cps ih =>
    rw [mapM_cons, one, ih]
    rfl

/-- Validation counts the code points. -/
theorem Accepts.count (accepts : Accepts (fun _ _ => (.ok 1 : Except Error Nat)) psz cch cps rest n)
    : n = cps.length := by
  obtain ⟨ws, weights, sum⟩ := accepts.weights
  rw [mapM_one] at weights
  cases weights
  rw [← sum, sum_replicate_nat, Nat.mul_one]

theorem zero_notMem_putCps (valid : ∀ uc ∈ cps, IsCp uc) : (0 : UInt8) ∉ putCps cps := by
  intro member
  obtain ⟨uc, within, octet⟩ := mem_flatMap.mp member
  obtain value | high := mem_rtStrPutCp (valid uc within) octet
  · exact Nat.ne_of_gt (valid uc within).1 value.symm
  · exact absurd high (by decide)

variable {ε : Type} {weigh : Nat → Nat → Except ε Nat}

/-- What may be examined is what is accepted, and a terminator before the limit. -/
theorem Accepts.take_examined (accepts : Accepts weigh psz cch cps rest n) :
    psz.take (examined psz cch) = upTo cch cps := by
  obtain ⟨valid, rfl, inside, stops, -⟩ := accepts
  have position : (putCps cps ++ rest).idxOf 0 = (putCps cps).length + rest.idxOf 0 :=
    idxOf_append_of_notMem (zero_notMem_putCps valid)
  rw [examined, position, upTo]
  by_cases full : (putCps cps).length = cch
  · rw [if_pos full, append_nil, min_eq_left (by omega), ← full, take_left]
  · obtain ⟨rest, rfl⟩ := head?_eq_some_iff.mp (stops.resolve_left full)
    rw [if_neg full, idxOf_cons_self, min_eq_right (by omega), Nat.add_zero,
      take_length_add_append]
    rfl

/-- The same code points are accepted with no more memory than may be examined. -/
theorem Accepts.upTo (accepts : Accepts weigh psz cch cps rest n) :
    Accepts weigh (upTo cch cps) cch cps (if (putCps cps).length = cch then [] else [0]) n := by
  refine ⟨accepts.valid, rfl, accepts.inside, ?_, accepts.weights⟩
  by_cases full : (putCps cps).length = cch
  · exact .inl full
  · rw [if_neg full]
    exact .inr rfl

theorem behind_start (cch : UInt64) : Behind cch.toNat 0 cch :=
  ⟨cch.toNat_lt, Nat.mod_eq_of_lt cch.toNat_lt⟩

theorem DecodeAgrees.keepsCount {cch : UInt64} (agrees : DecodeAgrees psz cch)
    (accepts : Accepts (fun _ _ => (.ok 1 : Except Error Nat)) psz cch.toNat cps rest n) :
    KeepsCount cch.toNat 0 cps := by
  obtain ⟨cps', steps, decodes, -⟩ := agrees n _ (validate_ok.mpr ⟨cps, rest, accepts, rfl⟩)
  have same := stepCps_put accepts.valid accepts.inside rest
  rw [← accepts.memory, ← accepts.count, steps, Option.some.injEq] at same
  subst same
  have decoded := decodes n (Nat.le_refl _)
  rw [accepts.take_examined] at decoded
  exact (decode_upTo accepts.valid accepts.inside (behind_start cch)
    (Nat.le_of_eq accepts.count.symm)).mp decoded

/-- The decoder agrees with the validation just if it keeps the count over all code points that the
validation accepts. -/
theorem decodeAgrees_iff (psz : List UInt8) (cch : UInt64) :
    DecodeAgrees psz cch ↔ ∀ cps rest n,
      Accepts (fun _ _ => (.ok 1 : Except Error Nat)) psz cch.toNat cps rest n →
        KeepsCount cch.toNat 0 cps := by
  constructor
  · exact fun agrees cps rest n accepts => agrees.keepsCount accepts
  · intro keeps n actual ok
    obtain ⟨cps, rest, accepts, -⟩ := validate_ok.mp ok
    have decodes (cCps : Nat) (room : n ≤ cCps) : rtUtf8Decode
        (psz.take (examined psz cch.toNat)) cch cCps = some (cps, true) := by
      rw [accepts.take_examined]
      exact (decode_upTo accepts.valid accepts.inside (behind_start cch) (accepts.count ▸ room)).mpr
        (keeps cps rest n accepts)
    have length : rtUtf8Length (psz.take (examined psz cch.toNat)) cch.toNat =
        some (.ok (n, (putCps cps).length)) := by
      rw [accepts.take_examined]
      exact validate_ok.mpr ⟨cps, _, accepts.upTo, rfl⟩
    have into (cCps : Nat) (room : n < cCps) : rtStrToUniEx.decodeInto
        (psz.take (examined psz cch.toNat)) cch cCps = some (.ok cps) := by
      rw [rtStrToUniEx.decodeInto, decodes _ (Nat.le_sub_one_of_lt room)]
      rfl
    refine ⟨cps, ?_, decodes, fun cCps => ⟨?_, fun room => ?_⟩⟩
    · rw [accepts.memory, accepts.count]
      exact stepCps_put accepts.valid accepts.inside rest
    · rw [rtStrToUniEx, length, Option.bind_some]
      simp only [Bool.false_eq_true, and_false, if_false, if_true]
      exact into _ (Nat.lt_of_succ_le (Nat.le_max_left _ _))
    · rw [rtStrToUniEx, length, Option.bind_some]
      simp only [and_true, if_pos (Nat.zero_lt_of_lt room), if_neg (Nat.not_le.mpr room)]
      exact into _ room

/-- A sequence of five octets at the limit. -/
theorem not_decodeAgrees_five : ¬ DecodeAgrees [0xf8, 0x88, 0x80, 0x80, 0x80] 5 := by
  intro agrees
  have put : putCps [0x200000] = [0xf8, 0x88, 0x80, 0x80, 0x80] := by decide
  have accepts : Accepts (fun _ _ => (.ok 1 : Except Error Nat)) [0xf8, 0x88, 0x80, 0x80, 0x80] 5
      [0x200000] [] 1 :=
    ⟨by simp [IsCp], by rw [put]; rfl, by rw [put]; decide, .inl (by rw [put]; rfl), [1], rfl, rfl⟩
  obtain ⟨-, none | some⟩ := agrees.keepsCount accepts
  · exact absurd none (by decide)
  · exact absurd some (by decide)

end Agreement

end VBox.Runtime.Utf8
