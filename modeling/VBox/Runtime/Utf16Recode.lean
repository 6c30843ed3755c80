import VBox.Runtime.Utf16
import Mathlib.Data.UInt

/-!
Recoding there and back.

Both directions come down to the code points: what is accepted is a sequence of them, in octets or
in units, and what is written are the same ones in the other form.
-/

namespace VBox.Runtime.Utf16

open VBox.Runtime.Utf8 List

/-! ### One code point -/

theorem units_length (uc : Nat) : (units uc).length = if uc < 0x10000 then 1 else 2 := by
  unfold units
  split_ifs <;> rfl

theorem putUnits_cons (uc : Nat) (cps : List Nat) :
    putUnits (uc :: cps) = units uc ++ putUnits cps := flatMap_cons

theorem rtStrPutCp_length_le_three (uc : Nat) (unicode : uc ≤ 0x10ffff) :
    (rtStrPutCp uc).length ≤ 4 ∧ ((rtStrPutCp uc).length ≤ 3 ↔ uc < 0x10000) := by
  unfold rtStrPutCp
  split_ifs <;> simp <;> omega

variable {uc : Nat}

/-- The weight of a code point is the number of its units. -/
theorem weight_countUnits {w : Nat} (valid : IsCp uc) :
    weight countUnits uc = .ok w ↔ uc ≤ 0x10ffff ∧ w = (units uc).length := by
  rw [weight, units_length]
  by_cases plain : uc < 0x80
  · rw [if_pos plain, if_pos (by omega), Except.ok.injEq]
    omega
  · rw [if_neg plain, countUnits]
    by_cases unicode : uc ≤ 0x10ffff
    · obtain ⟨most, short⟩ := rtStrPutCp_length_le_three uc unicode
      by_cases unit : uc < 0x10000
      · rw [if_pos (short.mpr unit), if_pos unit, Except.ok.injEq]
        omega
      · have four : (rtStrPutCp uc).length = 4 := by
          have := mt short.mp unit
          omega
        rw [if_neg (mt short.mp unit), if_pos ⟨four, unicode⟩, if_neg unit, Except.ok.injEq]
        omega
    · have long : 4 ≤ (rtStrPutCp uc).length := by
        obtain ⟨-, most, -⟩ := valid
        unfold rtStrPutCp
        split_ifs <;> simp <;> omega
      rw [if_neg (by omega), if_neg fun h => unicode h.2]
      exact ⟨fun h => (by cases h), fun h => absurd h.1 unicode⟩

theorem recodeLength_first {uch : UInt8} {cb : Nat} (length : sequenceLength uch = some cb)
    (few : cb ≤ 4) : uch &&& 0x80 ≠ 0 ∧ recodeLength uch = cb := by
  have all : ∀ n : Fin 256, ∀ cb ∈ sequenceLength (UInt8.ofNat n), cb ≤ 4 →
      UInt8.ofNat n &&& 0x80 ≠ 0 ∧ recodeLength (UInt8.ofNat n) = cb := by decide +kernel
  have this := all ⟨uch.toNat, UInt8.toNat_lt uch⟩
  simp only [UInt8.ofNat_toNat] at this
  exact this cb length few

variable {cwc : Nat}

/-- A code point that has been put in octets is recoded in units. -/
theorem recodeAsUtf16_put {cch : UInt64} (unicode : IsUnicode uc) (more : cch ≠ 0)
    (psz : List UInt8) : rtUtf8RecodeAsUtf16 (rtStrPutCp uc ++ psz) cch ((units uc).length + cwc) =
      (rtUtf8RecodeAsUtf16 psz (cch - UInt64.ofNat (rtStrPutCp uc).length) cwc).map
        fun rest => (units uc ++ rest.1, rest.2) := by
  obtain ⟨valid, top⟩ := unicode
  obtain ⟨most, short⟩ := rtStrPutCp_length_le_three uc top
  by_cases plain : uc < 0x80
  · obtain ⟨uch, put, zero, small, value⟩ := put_plain valid plain
    have same : UInt16.ofNat uc = uch.toUInt16 := by
      rw [← UInt16.toNat_inj, UInt16.toNat_ofNat', UInt8.toNat_toUInt16, value]
      exact Nat.mod_eq_of_lt (Nat.lt_trans plain (by decide))
    have unit : units uc = [uch.toUInt16] := by
      rw [units, if_pos (Nat.lt_trans plain (by decide)), same]
    rw [put, unit, singleton_append, length_singleton, Nat.add_comm,
      rtUtf8RecodeAsUtf16, if_neg more]
    simp only [if_neg zero, if_pos (plain_bit small)]
    rfl
  · obtain ⟨uch, tail, put, big, length, -, bits, -⟩ := put_sequence valid (Nat.le_of_not_lt plain)
    rw [put, length_cons] at most short
    obtain ⟨bit, same⟩ := recodeLength_first length most
    have zero : uch ≠ 0 := fun h => big (h ▸ by decide)
    have inside : ¬ (tail ++ psz).length < tail.length := by
      rw [length_append]
      omega
    by_cases unit : uc < 0x10000
    · have three := short.mpr unit
      rw [put, units_length, if_pos unit, units, if_pos unit, cons_append, Nat.add_comm,
        rtUtf8RecodeAsUtf16, if_neg more]
      simp only [if_neg zero, if_neg bit, same, Nat.add_sub_cancel, if_neg inside, drop_left,
        take_left, bits, length_cons, if_pos (Nat.lt_succ_of_le three),
        singleton_append]
    · have four : tail.length + 1 = 4 := by
        have := mt short.mp unit
        omega
      have three : tail.length = 3 := by omega
      have front : (tail ++ psz).take (4 - 1) = tail := take_left' three
      have behind : (tail ++ psz).drop 3 = psz := drop_left' three
      rw [three] at inside
      rw [four] at same bits
      rw [put, units_length, if_neg unit, units, if_neg unit, cons_append, Nat.add_comm,
        rtUtf8RecodeAsUtf16, if_neg more]
      simp only [if_neg zero, if_neg bit, same, if_neg inside, front, bits, length_cons, four,
        Nat.lt_irrefl, if_false, behind]
      rfl

/-- A unit that is no surrogate. -/
theorem unit_toNat (valid : IsCp uc) (unit : uc < 0x10000) :
    (UInt16.ofNat uc).toNat = uc ∧ UInt16.ofNat uc ≠ 0 ∧
      (UInt16.ofNat uc < 0xd800 ∨ 0xdfff < UInt16.ofNat uc) ∧ UInt16.ofNat uc < 0xfffe := by
  have value : (UInt16.ofNat uc).toNat = uc := UInt16.toNat_ofNat_of_lt' unit
  obtain ⟨some, -, surrogate, endian⟩ := valid
  refine ⟨value, fun zero => ?_, ?_, ?_⟩
  · rw [zero] at value
    exact Nat.ne_of_gt some value.symm
  · simp only [UInt16.lt_iff_toNat_lt, value, UInt16.reduceToNat]
    exact surrogate
  · simp only [UInt16.lt_iff_toNat_lt, value, UInt16.reduceToNat]
    omega

/-- The units of a pair. -/
theorem pair_units (least : 0x10000 ≤ uc) (most : uc ≤ 0x10ffff) :
    (surrogates (UInt32.ofNat uc)).1 ≠ 0 ∧
      ¬ ((surrogates (UInt32.ofNat uc)).1 < 0xd800 ∨ 0xdfff < (surrogates (UInt32.ofNat uc)).1) ∧
        ¬ 0xdc00 ≤ (surrogates (UInt32.ofNat uc)).1 ∧ IsLow (surrogates (UInt32.ofNat uc)).2 := by
  obtain ⟨high, low⟩ := surrogates_toNat least most
  simp only [IsLow, UInt16.le_iff_toNat_le, UInt16.lt_iff_toNat_lt, UInt16.reduceToNat, high, low]
  refine ⟨fun zero => ?_, by omega, by omega, by omega, by omega⟩
  rw [zero, UInt16.toNat_zero] at high
  omega

theorem unitOctets_eq (valid : IsCp uc) (unit : uc < 0x10000) : unitOctets uc = rtStrPutCp uc := by
  obtain ⟨-, -, surrogate, endian⟩ := valid
  unfold unitOctets rtStrPutCp
  split_ifs <;> first | rfl | omega

theorem pairOctets_eq (least : 0x10000 ≤ uc) (most : uc ≤ 0x10ffff) :
    pairOctets uc = rtStrPutCp uc := by
  rw [rtStrPutCp, if_neg (by omega), if_neg (by omega), if_neg (by omega), if_pos (by omega)]
  rfl

/-- A code point in units counts its octets. -/
theorem calcUtf8Length_put (unicode : IsUnicode uc) (pwsz : List UInt16) :
    rtUtf16CalcUtf8Length (units uc ++ pwsz) ((units uc).length + cwc) =
      (rtUtf16CalcUtf8Length pwsz cwc).map (·.map ((rtStrPutCp uc).length + ·)) := by
  obtain ⟨valid, top⟩ := unicode
  by_cases unit : uc < 0x10000
  · obtain ⟨value, zero, surrogate, endian⟩ := unit_toNat valid unit
    have octets := congrArg length (unitOctets_eq valid unit)
    rw [units_length, if_pos unit, units, if_pos unit, singleton_append, Nat.add_comm,
      rtUtf16CalcUtf8Length.eq_def, ← octets, unitOctets]
    simp only [if_neg zero, if_pos surrogate, if_pos endian]
    simp only [UInt16.lt_iff_toNat_lt, value, UInt16.reduceToNat]
    split_ifs <;> rfl
  · have least := Nat.le_of_not_lt unit
    obtain ⟨zero, surrogate, first, second⟩ := pair_units least top
    rw [units_length, if_neg unit, units, if_neg unit, cons_append, singleton_append,
      show 2 + cwc = cwc + 1 + 1 by omega, rtUtf16CalcUtf8Length.eq_def, ← pairOctets_eq least top]
    simp only [if_neg zero, if_neg surrogate, if_neg first, if_pos second]
    rfl

variable {cch : Nat}

/-- A code point in units is recoded in octets. -/
theorem recodeAsUtf8_put (unicode : IsUnicode uc) (pwsz : List UInt16) :
    rtUtf16RecodeAsUtf8 (units uc ++ pwsz) ((units uc).length + cwc)
        ((rtStrPutCp uc).length + cch) =
      (rtUtf16RecodeAsUtf8 pwsz cwc cch).map fun rest => (rtStrPutCp uc ++ rest.1, rest.2) := by
  obtain ⟨valid, top⟩ := unicode
  by_cases unit : uc < 0x10000
  · obtain ⟨value, zero, surrogate, endian⟩ := unit_toNat valid unit
    rw [units_length, if_pos unit, units, if_pos unit, singleton_append, Nat.add_comm,
      rtUtf16RecodeAsUtf8.eq_def]
    simp only [if_neg zero, if_pos surrogate, if_pos endian, value, unitOctets_eq valid unit,
      if_neg (Nat.not_lt.mpr (Nat.le_add_right (rtStrPutCp uc).length cch)),
      Nat.add_sub_cancel_left]
  · have least := Nat.le_of_not_lt unit
    obtain ⟨zero, surrogate, first, second⟩ := pair_units least top
    have octets := pairOctets_eq least top
    have four : (rtStrPutCp uc).length = 4 := by rw [← octets]; rfl
    rw [units_length, if_neg unit, units, if_neg unit, cons_append, singleton_append,
      show 2 + cwc = cwc + 1 + 1 by omega, rtUtf16RecodeAsUtf8.eq_def]
    simp only [if_neg zero, if_neg surrogate, if_neg first, if_pos second,
      pairCp_surrogates least top, octets, four,
      if_neg (Nat.not_lt.mpr (Nat.le_add_right 4 cch)), Nat.add_sub_cancel_left]

/-! ### Whole texts -/

section Texts

variable {psz : List UInt8} {pwsz : List UInt16} {cps : List Nat}

variable {rest : List UInt8}

/-- Octets up to the limit or a terminator are recoded in units. -/
theorem recodeAsUtf16_putCps {cch : UInt64} (unicode : ∀ uc ∈ cps, IsUnicode uc)
    (inside : (putCps cps).length ≤ cch.toNat)
    (stops : (putCps cps).length = cch.toNat ∨ rest.head? = some 0)
    (room : (putUnits cps).length ≤ cwc) :
    rtUtf8RecodeAsUtf16 (putCps cps ++ rest) cch cwc = some (putUnits cps, true) := by
  induction cps generalizing cch cwc with
  | nil =>
    rw [rtUtf8RecodeAsUtf16.eq_def]
    split
    · rfl
    · rename_i more
      obtain full | terminator := stops
      · exact absurd (UInt64.toNat_inj.mp full.symm) more
      · obtain ⟨rest, rfl⟩ := head?_eq_some_iff.mp terminator
        cases cwc <;> rfl
  | cons uc cps ih =>
    have first := unicode uc mem_cons_self
    have some := rtStrPutCp_length_pos uc
    rw [putCps_cons, length_append] at inside stops
    rw [putUnits_cons, length_append] at room
    have more : cch ≠ 0 := by
      rintro rfl
      rw [UInt64.toNat_zero] at inside
      omega
    have left : (cch - UInt64.ofNat (rtStrPutCp uc).length).toNat =
        cch.toNat - (rtStrPutCp uc).length := by
      have bounded := cch.toNat_lt
      have value : (UInt64.ofNat (rtStrPutCp uc).length).toNat = (rtStrPutCp uc).length :=
        UInt64.toNat_ofNat_of_lt' (Nat.lt_of_le_of_lt (Nat.le_of_add_right_le inside) bounded)
      rw [UInt64.toNat_sub_of_le _ _ (by rw [UInt64.le_iff_toNat_le, value]; omega), value]
    obtain ⟨cwc, rfl⟩ : ∃ n, cwc = (units uc).length + n := ⟨cwc - (units uc).length, by omega⟩
    rw [putCps_cons, append_assoc, recodeAsUtf16_put first more,
      ih (fun uc' member => unicode uc' (mem_cons_of_mem _ member)) (by omega)
        (stops.imp_left fun full => by omega) (by omega)]
    rfl

/-- Code points in units at the front of the memory, up to the limit or a terminator. -/
structure Units (pwsz : List UInt16) (cwc : Nat) (cps : List Nat) (rest : List UInt16) : Prop where
  unicode : ∀ uc ∈ cps, IsUnicode uc
  memory : pwsz = putUnits cps ++ rest
  inside : (putUnits cps).length ≤ cwc
  stops : (putUnits cps).length = cwc ∨ rest.head? = some 0

theorem Units.cons {rest : List UInt16} (unicode : IsUnicode uc) (texts : Units pwsz cwc cps rest) :
    Units (units uc ++ pwsz) ((units uc).length + cwc) (uc :: cps) rest := by
  obtain ⟨others, memory, inside, stops⟩ := texts
  have length : (putUnits (uc :: cps)).length = (units uc).length + (putUnits cps).length := by
    rw [putUnits_cons, length_append]
  refine ⟨by simpa using ⟨unicode, others⟩, ?_, by omega, stops.imp_left fun full => by omega⟩
  rw [putUnits_cons, append_assoc, ← memory]

/-- Units are counted and recoded in octets. -/
theorem Units.recode {rest : List UInt16} (texts : Units pwsz cwc cps rest)
    (room : (putCps cps).length ≤ cch) :
    rtUtf16CalcUtf8Length pwsz cwc = some (.ok (putCps cps).length) ∧
      rtUtf16RecodeAsUtf8 pwsz cwc cch = some (putCps cps, none) := by
  obtain ⟨unicode, rfl, inside, stops⟩ := texts
  induction cps generalizing cwc cch with
  | nil =>
    cases cwc with
    | zero =>
      rw [rtUtf16CalcUtf8Length.eq_def, rtUtf16RecodeAsUtf8.eq_def]
      exact ⟨rfl, rfl⟩
    | succ cwc =>
      obtain ⟨rest, rfl⟩ := head?_eq_some_iff.mp
        (stops.resolve_left fun h : 0 = cwc + 1 => Nat.succ_ne_zero _ h.symm)
      rw [rtUtf16CalcUtf8Length.eq_def, rtUtf16RecodeAsUtf8.eq_def]
      exact ⟨rfl, rfl⟩
  | cons uc cps ih =>
    have first := unicode uc mem_cons_self
    rw [putUnits_cons, length_append] at inside stops
    rw [putCps_cons, length_append] at room
    obtain ⟨cwc, rfl⟩ : ∃ n, cwc = (units uc).length + n := ⟨cwc - (units uc).length, by omega⟩
    obtain ⟨cch, rfl⟩ : ∃ n, cch = (rtStrPutCp uc).length + n :=
      ⟨cch - (rtStrPutCp uc).length, by omega⟩
    have others : rtUtf16CalcUtf8Length (putUnits cps ++ rest) cwc =
          some (.ok (putCps cps).length) ∧
        rtUtf16RecodeAsUtf8 (putUnits cps ++ rest) cwc cch = some (putCps cps, none) :=
      ih (by omega) (fun uc' member => unicode uc' (mem_cons_of_mem _ member)) (by omega)
        (stops.imp_left fun full => by omega)
    obtain ⟨counted, recoded⟩ := others
    rw [putUnits_cons, append_assoc, calcUtf8Length_put first, recodeAsUtf8_put first,
      counted, recoded, putCps_cons, length_append]
    exact ⟨rfl, rfl⟩

variable {n : Nat}

/-- What is counted in units are code points. -/
theorem exists_units (ok : rtUtf16CalcUtf8Length pwsz cwc = some (.ok n)) :
    ∃ cps rest, Units pwsz cwc cps rest := by
  induction size : pwsz.length using Nat.strong_induction_on generalizing pwsz cwc n with
  | _ _ ih =>
  rw [rtUtf16CalcUtf8Length.eq_def] at ok
  split at ok
  · exact ⟨[], pwsz, by simp, rfl, Nat.le_refl _, .inl rfl⟩
  · cases ok
  · rename_i wc pwsz cwc
    split at ok
    · rename_i zero
      exact ⟨[], wc :: pwsz, by simp, rfl, Nat.zero_le _, .inr (by simp [zero])⟩
    · rename_i zero
      split at ok
      · rename_i surrogate
        have unit : wc < 0xfffe → IsUnicode wc.toNat ∧ units wc.toNat = [wc] := by
          intro endian
          have bound := wc.toNat_lt
          have some : wc.toNat ≠ 0 := fun h => zero (UInt16.toNat_inj.mp h)
          simp only [UInt16.lt_iff_toNat_lt, UInt16.reduceToNat] at surrogate endian
          refine ⟨⟨⟨by omega, by omega, surrogate, by omega, by omega⟩, by omega⟩, ?_⟩
          rw [units, if_pos bound, UInt16.ofNat_toNat]
        have one : wc < 0xfffe → ∀ {m}, rtUtf16CalcUtf8Length pwsz cwc = some (.ok m) →
            ∃ cps rest, Units (wc :: pwsz) (cwc + 1) cps rest := by
          intro endian m counted
          obtain ⟨unicode, same⟩ := unit endian
          obtain ⟨cps, rest, texts⟩ :=
            ih pwsz.length (by simp only [← size, length_cons]; omega) counted rfl
          have front := texts.cons unicode
          rw [same, length_singleton, Nat.add_comm] at front
          exact ⟨_, rest, front⟩
        split at ok
        · rename_i plain
          obtain ⟨m, counted, -⟩ := map_map_ok.mp ok
          exact one (UInt16.lt_trans plain (by decide)) counted
        · split at ok
          · rename_i two
            obtain ⟨m, counted, -⟩ := map_map_ok.mp ok
            exact one (UInt16.lt_trans two (by decide)) counted
          · split at ok
            · rename_i three
              obtain ⟨m, counted, -⟩ := map_map_ok.mp ok
              exact one three counted
            · cases ok
      · rename_i surrogate
        split at ok
        · cases ok
        · rename_i first
          split at ok
          · cases ok
          · cases ok
          · rename_i wc2 pwsz cwc
            split at ok
            · rename_i second
              obtain ⟨m, counted, -⟩ := map_map_ok.mp ok
              obtain ⟨cps, rest, texts⟩ :=
                ih pwsz.length (by simp only [← size, length_cons]; omega) counted rfl
              obtain ⟨least, most, same⟩ := surrogates_pairCp surrogate first second
              have unicode : IsUnicode (pairCp wc wc2) :=
                ⟨⟨by omega, by omega, by omega, by omega, by omega⟩, most⟩
              have front := texts.cons unicode
              rw [units, if_neg (by omega), same] at front
              rw [show ([(wc, wc2).1, (wc, wc2).2] : List UInt16).length + cwc = cwc + 1 + 1 by
                simp; omega] at front
              exact ⟨_, rest, front⟩
            · cases ok

/-- A text without terminators, at the limit or with one behind it. -/
theorem text_eq {α : Type} [BEq α] [LawfulBEq α] [Zero α] {front rest : List α} {limit : Nat}
    (plain : (0 : α) ∉ front) (inside : front.length ≤ limit)
    (stops : front.length = limit ∨ rest.head? = some 0) : text limit (front ++ rest) = front := by
  have all : ∀ a ∈ front, (a != 0) = true := fun a member =>
    bne_iff_ne.mpr fun zero => plain (zero ▸ member)
  obtain full | terminator := stops
  · have whole : (front ++ []).takeWhile (· != 0) = front ++ [].takeWhile (· != 0) :=
      takeWhile_append_of_pos all
    rw [append_nil, takeWhile_nil, append_nil] at whole
    rw [text, ← full, take_left, whole]
  · obtain ⟨rest, rfl⟩ := head?_eq_some_iff.mp terminator
    rw [text, take_append, take_of_length_le inside, takeWhile_append_of_pos all]
    cases limit - front.length <;> simp

theorem zero_notMem_putUnits (unicode : ∀ uc ∈ cps, IsUnicode uc) :
    (0 : UInt16) ∉ putUnits cps := by
  intro member
  obtain ⟨uc, within, unit⟩ := mem_flatMap.mp member
  obtain ⟨valid, top⟩ := unicode uc within
  rw [units] at unit
  split at unit
  · rename_i small
    exact (unit_toNat valid small).2.1 (mem_singleton.mp unit).symm
  · rename_i big
    obtain ⟨zero, -, -, low⟩ := pair_units (Nat.le_of_not_lt big) top
    rw [mem_cons, mem_singleton] at unit
    obtain same | same := unit
    · exact zero same.symm
    · rw [← same] at low
      exact absurd low (by decide)

/-- What is accepted for UTF-16. -/
theorem accepts_countUnits : Accepts countUnits psz cch cps rest n ↔
      Accepts (fun _ _ => (.ok 1 : Except Utf8.Error Nat)) psz cch cps rest cps.length ∧
        (∀ uc ∈ cps, uc ≤ 0x10ffff) ∧ n = (putUnits cps).length := by
  have weights (valid : ∀ uc ∈ cps, IsCp uc) {n : Nat} :
      (∃ ws, cps.mapM (weight countUnits) = .ok ws ∧ ws.sum = n) ↔
        (∀ uc ∈ cps, uc ≤ 0x10ffff) ∧ n = (putUnits cps).length := by
    induction cps generalizing n with
    | nil =>
      constructor
      · rintro ⟨ws, weighed, rfl⟩
        cases weighed
        exact ⟨by simp, rfl⟩
      · rintro ⟨-, rfl⟩
        exact ⟨[], rfl, rfl⟩
    | cons uc cps ih =>
      have others {n : Nat} := ih (n := n) fun uc' member =>
        valid uc' (mem_cons_of_mem _ member)
      have first (w : Nat) := weight_countUnits (w := w) (valid uc mem_cons_self)
      rw [mapM_cons, putUnits_cons, length_append, forall_mem_cons]
      constructor
      · rintro ⟨ws, weighed, rfl⟩
        cases weighs : weight countUnits uc with
        | error rc => rw [weighs] at weighed; cases weighed
        | ok w =>
          cases weighs' : cps.mapM (weight countUnits) with
          | error rc => rw [weighs, weighs'] at weighed; cases weighed
          | ok ws' =>
            rw [weighs, weighs'] at weighed
            cases weighed
            obtain ⟨top, count⟩ := (first w).mp weighs
            obtain ⟨tops, sum⟩ := others.mp ⟨ws', weighs', rfl⟩
            exact ⟨⟨top, tops⟩, by rw [sum_cons, count, sum]⟩
      · rintro ⟨⟨top, tops⟩, rfl⟩
        obtain ⟨ws, weighs, sum⟩ := others.mpr ⟨tops, rfl⟩
        exact ⟨_ :: ws, by rw [(first _).mpr ⟨top, rfl⟩, weighs]; rfl, by rw [sum_cons, sum]⟩
  constructor
  · intro accepts
    obtain ⟨tops, count⟩ := (weights accepts.valid).mp accepts.weights
    exact ⟨⟨accepts.valid, accepts.memory, accepts.inside, accepts.stops, _, mapM_one _, by simp⟩,
      tops, count⟩
  · rintro ⟨accepts, unicode⟩
    exact ⟨accepts.valid, accepts.memory, accepts.inside, accepts.stops,
      (weights accepts.valid).mpr unicode⟩

end Texts

/-! ### There and back -/

/-- Octets that are recoded in units: which ones are accepted, and that they come back. -/
structure Utf8Recodes (psz : List UInt8) (cch : UInt64) : Prop where
  accepted : (∃ n actual, rtUtf8CalcUtf16Length psz cch.toNat = some (.ok (n, actual))) ↔
    ∃ n actual cps, rtUtf8Length psz cch.toNat = some (.ok (n, actual)) ∧
      stepCps n psz cch.toNat = some cps ∧ ∀ uc ∈ cps, uc ≤ 0x10ffff
  recoded : ∀ n actual, rtUtf8CalcUtf16Length psz cch.toNat = some (.ok (n, actual)) →
    ∃ pwsz : List UInt16, pwsz.length = n ∧
      (∀ cwc, n ≤ cwc → rtUtf8RecodeAsUtf16 psz cch cwc = some (pwsz, true)) ∧
      ∀ cwc, n ≤ cwc →
        rtUtf16CalcUtf8Length (pwsz ++ [0]) cwc = some (.ok (text cch.toNat psz).length) ∧
        ∀ cchBack, (text cch.toNat psz).length ≤ cchBack →
          rtUtf16RecodeAsUtf8 (pwsz ++ [0]) cwc cchBack = some (text cch.toNat psz, none)

/-- Units that are recoded in octets. -/
def Utf16Recodes (pwsz : List UInt16) (cwc : Nat) : Prop :=
  ∀ n, rtUtf16CalcUtf8Length pwsz cwc = some (.ok n) →
    ∃ psz : List UInt8, psz.length = n ∧
      (∀ cch, n ≤ cch → rtUtf16RecodeAsUtf8 pwsz cwc cch = some (psz, none)) ∧
      ∀ cch : UInt64, n ≤ cch.toNat →
        rtUtf8CalcUtf16Length (psz ++ [0]) cch.toNat = some (.ok ((text cwc pwsz).length, n)) ∧
        ∀ cwcBack, (text cwc pwsz).length ≤ cwcBack →
          rtUtf8RecodeAsUtf16 (psz ++ [0]) cch cwcBack = some (text cwc pwsz, true)

theorem units_putCps {cps : List Nat} (unicode : ∀ uc ∈ cps, IsUnicode uc) {cwc : Nat}
    (inside : (putUnits cps).length ≤ cwc) : Units (putUnits cps ++ [0]) cwc cps [0] :=
  ⟨unicode, rfl, inside, .inr rfl⟩

theorem utf8Recodes (psz : List UInt8) (cch : UInt64) : Utf8Recodes psz cch where
  accepted := by
    constructor
    · rintro ⟨n, actual, ok⟩
      obtain ⟨cps, rest, accepts, -⟩ := validate_ok.mp ok
      obtain ⟨accepts, unicode, -⟩ := accepts_countUnits.mp accepts
      refine ⟨cps.length, _, cps, validate_ok.mpr ⟨cps, rest, accepts, rfl⟩, ?_, unicode⟩
      rw [accepts.memory]
      exact stepCps_put accepts.valid accepts.inside rest
    · rintro ⟨n, actual, cps', ok, steps, unicode⟩
      obtain ⟨cps, rest, accepts, -⟩ := validate_ok.mp ok
      have same := stepCps_put accepts.valid accepts.inside rest
      rw [← accepts.memory, ← accepts.count, steps, Option.some.injEq] at same
      subst same
      rw [accepts.count] at accepts
      exact ⟨_, _, validate_ok.mpr ⟨_, rest, accepts_countUnits.mpr ⟨accepts, unicode, rfl⟩, rfl⟩⟩
  recoded := by
    intro n actual ok
    obtain ⟨cps, rest, accepts, -⟩ := validate_ok.mp ok
    obtain ⟨accepts, tops, rfl⟩ := accepts_countUnits.mp accepts
    obtain ⟨valid, rfl, inside, stops, -⟩ := accepts
    have unicode : ∀ uc ∈ cps, IsUnicode uc := fun uc member => ⟨valid uc member, tops uc member⟩
    rw [text_eq (zero_notMem_putCps valid) inside stops]
    refine ⟨putUnits cps, rfl, fun cwc room => recodeAsUtf16_putCps unicode inside stops room,
      fun cwc room => ?_⟩
    have texts := units_putCps unicode room
    exact ⟨(texts.recode (Nat.le_refl _)).1, fun cchBack enough => (texts.recode enough).2⟩

theorem utf16Recodes (pwsz : List UInt16) (cwc : Nat) : Utf16Recodes pwsz cwc := by
  intro n ok
  obtain ⟨cps, rest, texts⟩ := exists_units ok
  obtain ⟨count, -⟩ := texts.recode (Nat.le_refl _)
  rw [ok] at count
  cases count
  refine ⟨putCps cps, rfl, fun cch room => (texts.recode room).2, fun cch room => ?_⟩
  obtain ⟨unicode, rfl, inside, stops⟩ := texts
  have valid : ∀ uc ∈ cps, IsCp uc := fun uc member => (unicode uc member).1
  rw [text_eq (zero_notMem_putUnits unicode) inside stops]
  refine ⟨validate_ok.mpr ⟨cps, [0], ?_, rfl⟩, fun cwcBack enough => ?_⟩
  · exact accepts_countUnits.mpr ⟨⟨valid, rfl, room, .inr rfl, _, mapM_one _, by simp⟩,
      fun uc member => (unicode uc member).2, rfl⟩
  · exact recodeAsUtf16_putCps unicode room (.inr rfl) enough

/-- Recoding in UTF-16 and recoding in UTF-8 are inverse to each other. -/
theorem recode_inverse : (∀ psz cch, Utf8Recodes psz cch) ∧ ∀ pwsz cwc, Utf16Recodes pwsz cwc :=
  ⟨utf8Recodes, utf16Recodes⟩

end VBox.Runtime.Utf16
