import VBox.Runtime.Utf8

/-!
Code points in memory.

A string is the memory from its first octet on, as far as it may be examined; to examine more is a
fault, `none`. The octets that continue a sequence are examined from the last one on.
-/

namespace VBox.Runtime.Utf8

open List

/-! ### Sequences -/

/-- Whether the octets behind the first one continue the sequence, from the last one on. -/
def checkTail (psz : List UInt8) : Nat → Option Bool
  | 0 => some true
  | i + 1 => psz[i]?.bind fun ch => if isContinuation ch then checkTail psz i else some false

/-- The code point of a sequence of `cb` octets, which `uch` begins. -/
def getSequence (cb : Nat) (uch : UInt8) (psz : List UInt8) : Option (Except Error Nat) :=
  (checkTail psz (cb - 1)).map fun continues =>
    if continues then
      (checkCp cb (codePoint cb uch (psz.take (cb - 1)))).map
        fun _ => codePoint cb uch (psz.take (cb - 1))
    else .error .invalidUtf8Encoding

/-- `RTStrGetCpExInternal`: a failure skips one octet. -/
def rtStrGetCpExInternal : List UInt8 → Option (Except Error Nat × List UInt8)
  | [] => none
  | uch :: psz =>
    if uch < 0x80 then some (.ok uch.toNat, psz)
    else
      match sequenceLength uch with
      | none => some (.error .invalidUtf8Encoding, psz)
      | some cb =>
        (getSequence cb uch psz).map fun got =>
          match got with
          | .ok uc => (.ok uc, psz.drop (cb - 1))
          | .error rc => (.error rc, psz)

inductive StepError where
  | endOfString
  | invalid (rc : Error)
  deriving DecidableEq

/-- `RTStrGetCpNExInternal`, which examines an octet even behind the limit. -/
def rtStrGetCpNExInternal :
    List UInt8 → Nat → Option (Except StepError Nat × List UInt8 × Nat)
  | [], _ => none
  | uch :: psz, cch =>
    if cch = 0 then some (.error .endOfString, uch :: psz, cch)
    else if uch < 0x80 then some (.ok uch.toNat, psz, cch - 1)
    else
      match sequenceLength uch with
      | none => some (.error (.invalid .invalidUtf8Encoding), psz, cch - 1)
      | some cb =>
        if cch < cb then some (.error (.invalid .invalidUtf8Encoding), psz, cch - 1)
        else
          (getSequence cb uch psz).map fun got =>
            match got with
            | .ok uc => (.ok uc, psz.drop (cb - 1), cch - cb)
            | .error rc => (.error (.invalid rc), psz, cch - 1)

/-! ### Validation -/

/-- The loop of a validation, which adds up what `weigh` makes of the sequences: the sum, and the
number of octets. -/
def validate {ε : Type} (refuse : Error → ε) (weigh : Nat → Nat → Except ε Nat)
    (psz : List UInt8) (cch : Nat) : Option (Except ε (Nat × Nat)) :=
  if cch = 0 then some (.ok (0, 0))
  else
    match psz with
    | [] => none
    | uch :: psz =>
      if uch = 0 then some (.ok (0, 0))
      else if uch < 0x80 then
        (validate refuse weigh psz (cch - 1)).map fun rest =>
          rest.map fun counted => (1 + counted.1, 1 + counted.2)
      else
        match sequenceLength uch with
        | none => some (.error (refuse .invalidUtf8Encoding))
        | some cb =>
          if cch < cb then some (.error (refuse .invalidUtf8Encoding))
          else
            (getSequence cb uch psz).bind fun got =>
              match got with
              | .error rc => some (.error (refuse rc))
              | .ok uc =>
                match weigh cb uc with
                | .error rc => some (.error rc)
                | .ok weight =>
                  (validate refuse weigh (psz.drop (cb - 1)) (cch - cb)).map fun rest =>
                    rest.map fun counted => (weight + counted.1, cb + counted.2)
termination_by psz.length
decreasing_by
  · exact Nat.lt_succ_self _
  · simp only [List.length_drop, List.length_cons]
    omega

/-- `rtUtf8Length`: the number of code points, and of octets. -/
def rtUtf8Length (psz : List UInt8) (cch : Nat) : Option (Except Error (Nat × Nat)) :=
  validate id (fun _ _ => .ok 1) psz cch

/-- `RTSTR_MAX`, the greatest `size_t`. -/
def rtstrMax : Nat := 2 ^ 64 - 1

/-- `RTStrValidateEncoding`. -/
def rtStrValidateEncoding (psz : List UInt8) : Option (Except Error Unit) :=
  (rtUtf8Length psz rtstrMax).map fun rc => rc.map fun _ => ()

/-! ### Decoding -/

/-- The length by the first octet, whose encoding is not checked. -/
def decodeLength (uch : UInt8) : Nat :=
  if uch &&& 0x20 = 0 then 2
  else if uch &&& 0x10 = 0 then 3
  else if uch &&& 0x08 = 0 then 4
  else if uch &&& 0x04 = 0 then 5
  else 6

/-- What a sequence takes away from the limit. -/
def decodeStep (cb : Nat) : UInt64 := if cb = 5 then 6 else UInt64.ofNat cb

/-- `rtUtf8Decode`: the code points stored, and whether they were all that there are. -/
def rtUtf8Decode (psz : List UInt8) (cch : UInt64) (cCps : Nat) : Option (List Nat × Bool) :=
  if cch = 0 then some ([], true)
  else
    match psz, cCps with
    | [], _ => none
    | uch :: _, 0 => some ([], uch = 0)
    | uch :: psz, cCps + 1 =>
      if uch = 0 then some ([], true)
      else if uch &&& 0x80 = 0 then
        (rtUtf8Decode psz (cch - 1) cCps).map fun rest => (uch.toNat :: rest.1, rest.2)
      else if psz.length < decodeLength uch - 1 then none
      else
        (rtUtf8Decode (psz.drop (decodeLength uch - 1)) (cch - decodeStep (decodeLength uch))
          cCps).map fun rest =>
            (codePoint (decodeLength uch) uch (psz.take (decodeLength uch - 1)) :: rest.1, rest.2)

inductive ToUniError where
  | invalid (rc : Error)
  | bufferOverflow
  | noCodePointMemory
  deriving DecidableEq

/-- `RTStrToUniEx`: into a buffer of `cCps` code points, or into one taken from the heap if there is
memory. -/
def rtStrToUniEx (psz : List UInt8) (cch : UInt64) (fBuffer fMemory : Bool) (cCps : Nat) :
    Option (Except ToUniError (List Nat)) :=
  (rtUtf8Length psz cch.toNat).bind fun rc =>
    match rc with
    | .error rc => some (.error (.invalid rc))
    | .ok (cCpsResult, _) =>
      if 0 < cCps ∧ fBuffer then
        if cCps ≤ cCpsResult then some (.error .bufferOverflow)
        else decodeInto cCps
      else if fMemory then decodeInto (max (cCpsResult + 1) cCps)
      else some (.error .noCodePointMemory)
where
  decodeInto (cCps : Nat) : Option (Except ToUniError (List Nat)) :=
    (rtUtf8Decode psz cch (cCps - 1)).map fun decoded =>
      if decoded.2 then .ok decoded.1 else .error .bufferOverflow

/-! ### What has been put -/

theorem checkTail_true {psz : List UInt8} {n : Nat} :
    checkTail psz n = some true ↔ n ≤ psz.length ∧ (psz.take n).all isContinuation := by
  induction n with
  | zero => simp [checkTail]
  | succ n ih =>
    rw [checkTail, Option.bind_eq_some_iff]
    constructor
    · rintro ⟨ch, octet, rest⟩
      obtain ⟨inside, rfl⟩ := List.getElem?_eq_some_iff.mp octet
      split at rest
      · rename_i continues
        obtain ⟨-, all⟩ := ih.mp rest
        rw [take_succ_eq_append_getElem inside, all_append, all]
        exact ⟨inside, by simpa using continues⟩
      · cases rest
    · rintro ⟨inside, all⟩
      rw [take_succ_eq_append_getElem inside, all_append, Bool.and_eq_true_iff] at all
      have last : isContinuation psz[n] = true := by simpa using all.2
      refine ⟨psz[n], getElem?_eq_getElem inside, ?_⟩
      rw [if_pos last]
      exact ih.mpr ⟨Nat.le_of_lt inside, all.1⟩

/-- A sequence that is got is one that `RTStrGetCpEx` gets. -/
theorem getSequence_ok {cb : Nat} {uch : UInt8} {psz : List UInt8} {uc : Nat}
    (big : ¬ uch < 0x80) (length : sequenceLength uch = some cb) :
    getSequence cb uch psz = some (.ok uc) ↔
      rtStrGetCpEx (uch :: psz) = .ok (uc, psz.drop (cb - 1)) := by
  rw [getSequence, rtStrGetCpEx, if_neg big, length]
  simp only [Option.map_eq_some_iff]
  constructor
  · rintro ⟨continues, tail, got⟩
    split at got
    · rename_i all
      rw [all] at tail
      obtain ⟨inside, all⟩ := checkTail_true.mp tail
      rw [if_pos ⟨by rw [length_take]; omega, all⟩]
      cases check : checkCp cb (codePoint cb uch (psz.take (cb - 1))) with
      | error rc => rw [check] at got; cases got
      | ok =>
        rw [check] at got
        cases got
        rfl
    · cases got
  · intro got
    split at got
    · rename_i tail
      refine ⟨true, checkTail_true.mpr ⟨?_, tail.2⟩, ?_⟩
      · have := tail.1
        rw [length_take] at this
        omega
      · rw [if_pos rfl]
        cases check : checkCp cb (codePoint cb uch (psz.take (cb - 1))) with
        | error rc => rw [check] at got; cases got
        | ok =>
          rw [check] at got
          cases got
          rfl
    · cases got

/-- The sequence of a code point beyond the plain characters, in front of anything. -/
theorem put_sequence {uc : Nat} (valid : IsCp uc) (high : 0x80 ≤ uc) :
    ∃ uch tail, rtStrPutCp uc = uch :: tail ∧ ¬ uch < 0x80 ∧
      sequenceLength uch = some (tail.length + 1) ∧ tail.all isContinuation = true ∧
        codePoint (tail.length + 1) uch tail = uc ∧
          ∀ psz, getSequence (tail.length + 1) uch (tail ++ psz) = some (.ok uc) := by
  obtain ⟨cb, least, most, ok⟩ := exists_checkCp valid high
  obtain ⟨-, -, put, fits⟩ := checkCp_ok least most ok
  obtain ⟨length, bits⟩ := sequenceLength_first least most fits
  have big : ¬ UInt8.ofNat (256 - 2 ^ (8 - cb) + uc / 64 ^ (cb - 1)) < 0x80 := by
    intro small
    rw [sequenceLength, if_pos (UInt8.lt_trans small (by decide))] at length
    cases length
  have count : (continuations (cb - 1) uc).length + 1 = cb := by
    rw [continuations_length]
    omega
  refine ⟨_, _, put, big, ?_, continuations_all _ _, ?_, fun psz => ?_⟩
  · rw [count, length]
  · rw [count, codePoint, foldl_continuations, bits, Nat.div_add_mod]
  · rw [count, getSequence_ok big length, ← cons_append]
    have got := rtStrGetCpEx_put valid psz
    rw [put, encoded] at got
    rw [got, drop_left' (continuations_length _ _)]

/-- What is got as a sequence has been put. -/
theorem getSequence_put {cb : Nat} {uch : UInt8} {psz : List UInt8} {uc : Nat}
    (big : ¬ uch < 0x80) (length : sequenceLength uch = some cb)
    (got : getSequence cb uch psz = some (.ok uc)) :
    IsCp uc ∧ 0x80 ≤ uc ∧ (rtStrPutCp uc).length = cb ∧
      uch :: psz = rtStrPutCp uc ++ psz.drop (cb - 1) := by
  have step := (getSequence_ok big length).mp got
  obtain ⟨least, most, -⟩ := sequenceLength_some length
  have check : checkCp cb uc = .ok () ∧ cb - 1 ≤ psz.length := by
    rw [getSequence, Option.map_eq_some_iff] at got
    obtain ⟨continues, tail, got⟩ := got
    split at got
    · rename_i all
      rw [all] at tail
      cases check : checkCp cb (codePoint cb uch (psz.take (cb - 1))) with
      | error rc => rw [check] at got; cases got
      | ok =>
        rw [check] at got
        cases got
        exact ⟨check, (checkTail_true.mp tail).1⟩
    · cases got
  obtain ⟨valid, high, put, -⟩ := checkCp_ok least most check.1
  obtain ⟨-, same⟩ := rtStrGetCpEx_ok step (by omega)
  have count : (rtStrPutCp uc).length = cb := by
    rw [put, encoded, length_cons, continuations_length]
    omega
  exact ⟨valid, high, count, same⟩

/-! ### What a validation accepts -/

/-- The weight of a code point: a plain character counts once. -/
def weight {ε : Type} (weigh : Nat → Nat → Except ε Nat) (uc : Nat) : Except ε Nat :=
  if uc < 0x80 then .ok 1 else weigh (rtStrPutCp uc).length uc

/-- Code points with their weights, at the front of the memory and up to the limit or a
terminator. -/
structure Accepts {ε : Type} (weigh : Nat → Nat → Except ε Nat) (psz : List UInt8) (cch : Nat)
    (cps : List Nat) (rest : List UInt8) (n : Nat) : Prop where
  valid : ∀ uc ∈ cps, IsCp uc
  memory : psz = putCps cps ++ rest
  inside : (putCps cps).length ≤ cch
  stops : (putCps cps).length = cch ∨ rest.head? = some 0
  weights : ∃ ws, cps.mapM (weight weigh) = .ok ws ∧ ws.sum = n

section Accepts

variable {ε : Type} {refuse : Error → ε} {weigh : Nat → Nat → Except ε Nat} {psz rest : List UInt8}
  {cch uc n w : Nat} {cps : List Nat}

theorem putCps_cons (uc : Nat) (cps : List Nat) :
    putCps (uc :: cps) = rtStrPutCp uc ++ putCps cps := flatMap_cons

theorem accepts_nil (stops : cch = 0 ∨ psz.head? = some 0) : Accepts weigh psz cch [] psz 0 where
  valid := by simp
  memory := rfl
  inside := Nat.zero_le _
  stops := stops.imp_left fun none => none.symm
  weights := ⟨[], rfl, rfl⟩

/-- One more code point in front. -/
theorem Accepts.cons (valid : IsCp uc) (weighs : weight weigh uc = .ok w)
    (inside : (rtStrPutCp uc).length ≤ cch)
    (accepts : Accepts weigh psz (cch - (rtStrPutCp uc).length) cps rest n) :
    Accepts weigh (rtStrPutCp uc ++ psz) cch (uc :: cps) rest (w + n) := by
  have length : (putCps (uc :: cps)).length = (rtStrPutCp uc).length + (putCps cps).length := by
    rw [putCps_cons, length_append]
  obtain ⟨ws, weights, sum⟩ := accepts.weights
  have fits := accepts.inside
  refine ⟨by simpa using ⟨valid, accepts.valid⟩, ?_, by omega, ?_, w :: ws, ?_, ?_⟩
  · rw [putCps_cons, append_assoc, ← accepts.memory]
  · exact accepts.stops.imp_left fun full => by omega
  · rw [mapM_cons, weighs, weights]
    rfl
  · rw [sum_cons, sum]

/-- And one less. -/
theorem Accepts.uncons (accepts : Accepts weigh psz cch (uc :: cps) rest n) :
    IsCp uc ∧ (rtStrPutCp uc).length ≤ cch ∧ ∃ w m, weight weigh uc = .ok w ∧ n = w + m ∧
        psz = rtStrPutCp uc ++ (putCps cps ++ rest) ∧
          Accepts weigh (putCps cps ++ rest) (cch - (rtStrPutCp uc).length) cps rest m := by
  obtain ⟨valid, memory, inside, stops, ws, weights, sum⟩ := accepts
  rw [putCps_cons, length_append] at inside stops
  rw [putCps_cons, append_assoc] at memory
  refine ⟨valid uc mem_cons_self, by omega, ?_⟩
  rw [mapM_cons] at weights
  cases first : weight weigh uc with
  | error rc => rw [first] at weights; cases weights
  | ok w =>
    cases others : cps.mapM (weight weigh) with
    | error rc => rw [first, others] at weights; cases weights
    | ok ws' =>
      rw [first, others] at weights
      cases weights
      refine ⟨w, ws'.sum, rfl, by rw [← sum, sum_cons], memory, ?_⟩
      exact ⟨fun uc' member => valid uc' (mem_cons_of_mem _ member), rfl, by omega,
        stops.imp_left fun full => by omega, ws', others, rfl⟩

theorem map_map_ok {α β : Type} {f : α → β} {x : Option (Except ε α)} {v : β} :
    x.map (fun rc => rc.map f) = some (.ok v) ↔ ∃ c, x = some (.ok c) ∧ f c = v := by
  rcases x with _ | _ | c <;> simp [Except.map]

theorem validate_plain {uch : UInt8} (more : cch ≠ 0) (zero : uch ≠ 0) (plain : uch < 0x80) :
    validate refuse weigh (uch :: psz) cch =
      (validate refuse weigh psz (cch - 1)).map fun rest =>
        rest.map fun counted => (1 + counted.1, 1 + counted.2) := by
  rw [validate, if_neg more, if_neg zero, if_pos plain]

/-- A code point that has been put is weighed. -/
theorem validate_put (valid : IsCp uc) (inside : (rtStrPutCp uc).length ≤ cch)
    (weighs : weight weigh uc = .ok w) : validate refuse weigh (rtStrPutCp uc ++ psz) cch =
      (validate refuse weigh psz (cch - (rtStrPutCp uc).length)).map fun rest =>
        rest.map fun counted => (w + counted.1, (rtStrPutCp uc).length + counted.2) := by
  by_cases plain : uc < 0x80
  · have put : rtStrPutCp uc = [UInt8.ofNat uc] := if_pos plain
    have value : (UInt8.ofNat uc).toNat = uc :=
      UInt8.toNat_ofNat_of_lt' (Nat.lt_trans plain (by decide))
    have zero : UInt8.ofNat uc ≠ 0 := fun h => by
      have := congrArg UInt8.toNat h
      rw [value] at this
      exact Nat.ne_of_gt valid.1 this
    have small : UInt8.ofNat uc < 0x80 := by rw [UInt8.lt_iff_toNat_lt, value]; exact plain
    rw [weight, if_pos plain] at weighs
    cases weighs
    rw [put] at inside ⊢
    exact validate_plain (by simp at inside; omega) zero small
  · obtain ⟨uch, tail, put, big, length, -, -, got⟩ := put_sequence valid (Nat.le_of_not_lt plain)
    have zero : uch ≠ 0 := fun h => big (h ▸ by decide)
    rw [weight, if_neg plain] at weighs
    rw [put] at inside weighs ⊢
    rw [length_cons] at inside weighs
    rw [cons_append, validate, if_neg (by omega), if_neg zero, if_neg big, length]
    simp only
    rw [if_neg (by omega), got, Option.bind_some]
    simp only [weighs, Nat.add_sub_cancel, drop_left, length_cons]

/-- A validation comes through just if the memory begins with encoded code points that it
accepts. -/
theorem validate_ok {actual : Nat} : validate refuse weigh psz cch = some (.ok (n, actual)) ↔
      ∃ cps rest, Accepts weigh psz cch cps rest n ∧ actual = (putCps cps).length := by
  constructor
  · intro ok
    induction whole : psz.length using Nat.strong_induction_on generalizing psz cch n actual with
    | _ size ih =>
    rw [validate.eq_def] at ok
    split at ok
    · rename_i none
      cases ok
      exact ⟨[], psz, accepts_nil (.inl none), rfl⟩
    · rename_i more
      cases psz with
      | nil => cases ok
      | cons uch psz =>
        simp only at ok
        split at ok
        · rename_i zero
          cases ok
          exact ⟨[], uch :: psz, accepts_nil (.inr (by simp [zero])), rfl⟩
        · rename_i zero
          split at ok
          · rename_i plain
            obtain ⟨counted, tail, same⟩ := map_map_ok.mp ok
            obtain ⟨cps, rest, accepts, octets⟩ := ih psz.length (by simp [← whole]) tail rfl
            have value : uch.toNat < 0x80 := by simpa [UInt8.lt_iff_toNat_lt] using plain
            have some : 0 < uch.toNat := Nat.pos_of_ne_zero fun h => zero (UInt8.toNat_inj.mp h)
            have put : rtStrPutCp uch.toNat = [uch] := rtStrPutCp_plain value
            cases same
            refine ⟨uch.toNat :: cps, rest, ?_, ?_⟩
            · have front : Accepts weigh (rtStrPutCp uch.toNat ++ psz) cch (uch.toNat :: cps) rest
                  (1 + counted.1) :=
                .cons (isCp_plain some value) (if_pos value) (by rw [put]; simp; omega)
                  (by rw [put]; exact accepts)
              rwa [put, singleton_append] at front
            · rw [putCps_cons, put, length_append, ← octets]
              rfl
          · rename_i big
            cases length : sequenceLength uch with
            | none => rw [length] at ok; cases ok
            | some cb =>
              rw [length] at ok
              simp only at ok
              split at ok
              · cases ok
              · rename_i fits
                obtain ⟨got, tail, ok⟩ := Option.bind_eq_some_iff.mp ok
                cases got with
                | error rc => cases ok
                | ok uc =>
                  obtain ⟨valid, high, count, same⟩ := getSequence_put big length tail
                  simp only at ok
                  cases weighs : weigh cb uc with
                  | error rc => rw [weighs] at ok; cases ok
                  | ok w =>
                    rw [weighs] at ok
                    obtain ⟨counted, behind, sum⟩ := map_map_ok.mp ok
                    have shorter : (psz.drop (cb - 1)).length < size := by
                      rw [← whole, length_drop, length_cons]
                      omega
                    obtain ⟨cps, rest, accepts, octets⟩ := ih _ shorter behind rfl
                    cases sum
                    rw [← count] at weighs accepts fits
                    have weighed : weight weigh uc = .ok w :=
                      (if_neg (Nat.not_lt.mpr high)).trans weighs
                    refine ⟨uc :: cps, rest, ?_, ?_⟩
                    · rw [same, ← count]
                      exact accepts.cons valid weighed (Nat.not_lt.mp fits)
                    · rw [putCps_cons, length_append, count, ← octets]
  · rintro ⟨cps, rest, accepts, rfl⟩
    induction cps generalizing psz cch n with
    | nil =>
      obtain ⟨ws, weights, sum⟩ := accepts.weights
      cases weights
      have memory : psz = rest := accepts.memory
      rw [validate.eq_def]
      split
      · rw [← sum]
        rfl
      · rename_i more
        obtain full | terminator := accepts.stops
        · exact absurd full.symm more
        · subst memory
          obtain ⟨psz, rfl⟩ := head?_eq_some_iff.mp terminator
          rw [← sum]
          rfl
    | cons uc cps ih =>
      obtain ⟨valid, inside, w, m, weighs, rfl, rfl, others⟩ := accepts.uncons
      rw [validate_put valid inside weighs, ih others, putCps_cons, length_append]
      rfl

end Accepts

end VBox.Runtime.Utf8
