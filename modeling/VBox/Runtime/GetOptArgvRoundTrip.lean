import VBox.Runtime.GetOptArgv

/-!
Argument vectors that come back.

An argument quoted for the Bourne shell is copied back code point by code point. An empty argument
is not quoted, so it leaves nothing on the command line but a second space.
-/

namespace VBox.Runtime.GetOptArgv

open VBox.Runtime.Utf8 List

/-! ### What is copied -/

variable {uc : Nat} {cps : List Nat} {psz : List UInt8}

section Copy

variable {pszSeparators : List UInt8}

/-- One step of the copying loop. -/
theorem copyArg_put (valid : IsCp uc) (cpQuote : Nat) (rest : List UInt8) :
    copyArg pszSeparators cpQuote (rtStrPutCp uc ++ rest) =
      if cpQuote = 0 then
        if uc = chDouble.toNat ∨ uc = chSingle.toNat then copyArg pszSeparators uc rest
        else if rtGetOptIsCpInSet uc pszSeparators then .ok ([], uc, rest)
        else (copyArg pszSeparators cpQuote rest).map fun (pszDst, last) =>
          (rtStrPutCp uc ++ pszDst, last)
      else if cpQuote ≠ uc then
        (copyArg pszSeparators cpQuote rest).map fun (pszDst, last) =>
          (rtStrPutCp uc ++ pszDst, last)
      else copyArg pszSeparators 0 rest := by
  rw [copyArg]
  split
  · rename_i got
    rw [rtStrGetCpEx_put valid] at got
    cases got
  · rename_i got
    rw [rtStrGetCpEx_put valid] at got
    cases got
    rw [if_neg (Nat.pos_iff_ne_zero.mp valid.1)]

theorem copyArg_end (cpQuote : Nat) : copyArg pszSeparators cpQuote [] = .ok ([], 0, []) := by
  rw [copyArg]
  rfl

/-- A plain character is copied like a code point. -/
theorem copyArg_plain {ch : UInt8} (more : 0 < ch.toNat) (plain : ch.toNat < 0x80) (cpQuote : Nat)
    (rest : List UInt8) : copyArg pszSeparators cpQuote (ch :: rest) =
      if cpQuote = 0 then
        if ch.toNat = chDouble.toNat ∨ ch.toNat = chSingle.toNat then
          copyArg pszSeparators ch.toNat rest
        else if rtGetOptIsCpInSet ch.toNat pszSeparators then .ok ([], ch.toNat, rest)
        else (copyArg pszSeparators cpQuote rest).map fun (pszDst, last) => (ch :: pszDst, last)
      else if cpQuote ≠ ch.toNat then
        (copyArg pszSeparators cpQuote rest).map fun (pszDst, last) => (ch :: pszDst, last)
      else copyArg pszSeparators 0 rest := by
  have step : copyArg pszSeparators cpQuote (rtStrPutCp ch.toNat ++ rest) = _ :=
    copyArg_put (isCp_plain more plain) cpQuote rest
  rw [rtStrPutCp_plain plain] at step
  exact step

/-- A string put in front of what is copied. -/
def putFront (psz : List UInt8) (copied : Except Error (List UInt8 × Nat × List UInt8)) :
    Except Error (List UInt8 × Nat × List UInt8) :=
  copied.map fun (pszDst, last) => (psz ++ pszDst, last)

@[simp] theorem putFront_nil (copied : Except Error (List UInt8 × Nat × List UInt8)) :
    putFront [] copied = copied := by
  cases copied <;> rfl

@[simp] theorem putFront_putFront (psz psz' : List UInt8)
    (copied : Except Error (List UInt8 × Nat × List UInt8)) :
    putFront psz (putFront psz' copied) = putFront (psz ++ psz') copied := by
  cases copied with
  | error rc => rfl
  | ok copied => simp [putFront, Except.map]

/-- Code points that are neither quotes nor separators are copied as they are. -/
theorem copyArg_unquoted (valid : ∀ uc ∈ cps, IsCp uc)
    (unquoted : ∀ uc ∈ cps, uc ≠ chDouble.toNat ∧ uc ≠ chSingle.toNat ∧
      rtGetOptIsCpInSet uc pszSeparators = false) (rest : List UInt8) :
    copyArg pszSeparators 0 (putCps cps ++ rest) =
      putFront (putCps cps) (copyArg pszSeparators 0 rest) := by
  induction cps with
  | nil => simp [putCps]
  | cons uc cps ih =>
    obtain ⟨double, single, separates⟩ := unquoted uc mem_cons_self
    have tail := ih (fun uc mem => valid uc (mem_cons_of_mem _ mem))
      (fun uc mem => unquoted uc (mem_cons_of_mem _ mem))
    have split : putCps (uc :: cps) = rtStrPutCp uc ++ putCps cps := rfl
    rw [split, append_assoc, copyArg_put (valid uc mem_cons_self), if_pos rfl,
      if_neg (not_or.mpr ⟨double, single⟩), if_neg (by simp [separates]), tail,
      ← putFront_putFront]
    rfl

theorem putBourneSh_append (psz psz' : List UInt8) :
    putBourneSh (psz ++ psz') = putBourneSh psz ++ putBourneSh psz' := by
  induction psz with
  | nil => rfl
  | cons ch psz ih => rw [cons_append, putBourneSh, putBourneSh, ih, append_assoc]

/-- A string without single quotes is put as it is. -/
theorem putBourneSh_of_notMem (none : chSingle ∉ psz) : putBourneSh psz = psz := by
  induction psz with
  | nil => rfl
  | cons ch psz ih =>
    obtain ⟨head, tail⟩ := not_or.mp (mem_cons.not.mp none)
    rw [putBourneSh, if_neg (Ne.symm head), ih tail]
    rfl

/-- Between single quotes, code points are copied as they are, and a single quote is copied from
between double quotes. -/
theorem copyArg_single (valid : ∀ uc ∈ cps, IsCp uc) (rest : List UInt8) :
    copyArg pszSeparators chSingle.toNat (putBourneSh (putCps cps) ++ rest) =
      putFront (putCps cps) (copyArg pszSeparators chSingle.toNat rest) := by
  induction cps with
  | nil => simp [putCps, putBourneSh]
  | cons uc cps ih =>
    have tail := ih fun uc mem => valid uc (mem_cons_of_mem _ mem)
    have head := valid uc mem_cons_self
    have split : putCps (uc :: cps) = rtStrPutCp uc ++ putCps cps := rfl
    rw [split, putBourneSh_append, append_assoc]
    by_cases single : uc = chSingle.toNat
    · have quoted : putBourneSh (rtStrPutCp uc) =
          [chSingle, chDouble, chSingle, chDouble, chSingle] := by
        rw [single, rtStrPutCp_plain (by decide)]
        rfl
      -- The quote is closed, a double one is opened for the character, and a quote is opened again.
      rw [quoted]
      simp only [cons_append, nil_append]
      rw [copyArg_plain (by decide) (by decide), if_neg (by decide), if_neg (by decide),
        copyArg_plain (by decide) (by decide), if_pos rfl, if_pos (by decide),
        copyArg_plain (by decide) (by decide), if_neg (by decide), if_pos (by decide),
        copyArg_plain (by decide) (by decide), if_neg (by decide), if_neg (by decide),
        copyArg_plain (by decide) (by decide), if_pos rfl, if_pos (by decide), tail,
        single, rtStrPutCp_plain (by decide), ← putFront_putFront]
      rfl
    · have none : chSingle ∉ rtStrPutCp uc := by
        intro mem
        obtain same | high := mem_rtStrPutCp head mem
        · exact single same.symm
        · exact absurd high (by decide)
      rw [putBourneSh_of_notMem none, copyArg_put head, if_neg (by decide),
        if_pos (Ne.symm single), tail, ← putFront_putFront]
      rfl

end Copy

/-! ### Arguments -/

variable {cp : Nat}

/-- A code point beyond the plain characters is not one of them. -/
theorem isUniCpInString_plain (high : 0x80 ≤ cp) {psz : List UInt8}
    (plain : ∀ ch ∈ psz, ch.toNat < 0x80) : rtGetOptIsUniCpInString cp psz = false := by
  have other {ch : Nat} (low : ch < 0x80) : ch ≠ cp := by omega
  induction psz with
  | nil =>
    rw [rtGetOptIsUniCpInString]
    simp only [rtStrGetCpEx]
    rw [if_neg (other (by decide))]
    rfl
  | cons ch psz ih =>
    have head := plain ch mem_cons_self
    have got : rtStrGetCpEx (ch :: psz) = .ok (ch.toNat, psz) := by
      rw [rtStrGetCpEx, if_pos (by simpa [UInt8.lt_iff_toNat_lt] using head)]
    rw [rtGetOptIsUniCpInString]
    split
    · rfl
    · rename_i again
      rw [got] at again
      cases again
      rw [if_neg (other head), ih fun ch mem => plain ch (mem_cons_of_mem _ mem), ite_self]

theorem defaultSeparators_plain : ∀ ch ∈ defaultSeparators, ch.toNat < 0x80 := by
  intro ch among
  simp only [defaultSeparators, mem_cons, not_mem_nil, or_false] at among
  obtain rfl | rfl | rfl | rfl := among <;> decide

theorem isCpInSet_default (separates : rtGetOptIsCpInSet uc defaultSeparators = true) :
    uc = 0x20 ∨ uc = 0x09 ∨ uc = 0x0a ∨ uc = 0x0d := by
  rw [rtGetOptIsCpInSet] at separates
  split at separates
  · rename_i plain
    have value : (UInt8.ofNat uc).toNat = uc := by
      rw [UInt8.toNat_ofNat']
      omega
    have among : UInt8.ofNat uc ∈ defaultSeparators := by simpa using separates
    simp only [defaultSeparators, mem_cons, not_mem_nil, or_false] at among
    refine among.imp ?_ (Or.imp ?_ (Or.imp ?_ ?_)) <;> exact fun same => value ▸ same ▸ rfl
  · rw [isUniCpInString_plain (by omega) defaultSeparators_plain] at separates
    cases separates

/-- An argument that is not quoted has no quotes and no separators in it. -/
theorem unquoted_of_not_requiresQuoting
    (none : rtGetOpArgvRequiresQuoting (putCps cps) quoteBourneSh = false) :
    ∀ uc ∈ cps, uc ≠ chDouble.toNat ∧ uc ≠ chSingle.toNat ∧
      rtGetOptIsCpInSet uc defaultSeparators = false := by
  intro uc mem
  have absent : ∀ ch : UInt8, ch.toNat < 0x80 → inTable quoteBourneSh ch = true →
      uc ≠ ch.toNat := by
    rintro ch plain table rfl
    have there : ch ∈ putCps cps :=
      mem_flatMap.mpr ⟨_, mem, by rw [rtStrPutCp_plain plain]; exact mem_singleton_self _⟩
    exact absurd table (List.any_eq_false.mp none ch there)
  refine ⟨absent chDouble (by decide) (by decide), absent chSingle (by decide) (by decide), ?_⟩
  rw [Bool.eq_false_iff]
  intro separates
  obtain same | same | same | same := isCpInSet_default separates
  · exact absent 0x20 (by decide) (by decide) same
  · exact absent 0x09 (by decide) (by decide) same
  · exact absent 0x0a (by decide) (by decide) same
  · exact absent 0x0d (by decide) (by decide) same

variable {arg : List UInt8}

/-- An argument is copied back as it was. -/
theorem copyArg_putArg (valid : IsUtf8 arg) (rest : List UInt8) :
    copyArg defaultSeparators 0 (putArg quoteBourneSh arg ++ rest) =
      putFront arg (copyArg defaultSeparators 0 rest) := by
  obtain ⟨cps, all, rfl⟩ := valid
  by_cases quoting : rtGetOpArgvRequiresQuoting (putCps cps) quoteBourneSh = true
  · rw [putArg, if_neg (by simp [quoting]), if_neg (by decide)]
    simp only [append_assoc, cons_append, nil_append]
    rw [copyArg_plain (by decide) (by decide), if_pos rfl, if_pos (by decide), copyArg_single all,
      copyArg_plain (by decide) (by decide), if_neg (by decide), if_neg (by decide)]
  · have none := Bool.eq_false_iff.mpr quoting
    rw [putArg, if_pos (by simp [none]),
      copyArg_unquoted all (unquoted_of_not_requiresQuoting none)]

/-! ### Command lines -/

variable {pszSrc : List UInt8} {args : List (List UInt8)}

/-- Each argument that is chopped off is a string of code points. -/
theorem chop_isUtf8 {pszSeparators : List UInt8} (chopped : chop pszSeparators pszSrc = .ok args) :
    ∀ arg ∈ args, IsUtf8 arg := by
  fun_induction chop pszSeparators pszSrc generalizing args with
  | case1 => cases chopped; simp
  | case2 => cases chopped
  | case3 => cases chopped; simp
  | case4 => cases chopped
  | case5 pszSrc more psz skipped some pszDst rest copied =>
    cases chopped
    simpa using (copyArg_ok copied).1
  | case6 pszSrc more psz skipped some pszDst cp rest copied separates ih =>
    obtain ⟨args, tail, rfl⟩ := map_eq_ok chopped
    simpa using ⟨(copyArg_ok copied).1, ih tail⟩

section Skip

variable {pszSeparators : List UInt8}

theorem skipDelimiters_put (valid : IsCp uc) (rest : List UInt8) :
    rtGetOptSkipDelimiters pszSeparators (rtStrPutCp uc ++ rest) =
      if rtGetOptIsCpInSet uc pszSeparators then rtGetOptSkipDelimiters pszSeparators rest
      else .ok (rtStrPutCp uc ++ rest) := by
  rw [rtGetOptSkipDelimiters]
  split
  · rename_i got
    rw [rtStrGetCpEx_put valid] at got
    cases got
  · rename_i got
    rw [rtStrGetCpEx_put valid] at got
    cases got
    have char : uc ≠ 0 := Nat.pos_iff_ne_zero.mp valid.1
    cases separates : rtGetOptIsCpInSet uc pszSeparators <;> simp [char]

theorem skipDelimiters_nil : rtGetOptSkipDelimiters pszSeparators [] = .ok [] := by
  rw [rtGetOptSkipDelimiters]
  rfl

theorem chop_nil : chop pszSeparators [] = .ok [] := by
  rw [chop, if_pos rfl]

/-- An argument is chopped off behind the separators in front of it. -/
theorem chop_of_copied {pszDst rest : List UInt8}
    (skipped : rtGetOptSkipDelimiters pszSeparators pszSrc = .ok psz) (some : psz ≠ [])
    (copied : copyArg pszSeparators 0 psz = .ok (pszDst, cp, rest)) : chop pszSeparators pszSrc =
      if cp = 0 then .ok [pszDst] else (chop pszSeparators rest).map (pszDst :: ·) := by
  have more : pszSrc ≠ [] := by
    rintro rfl
    rw [skipDelimiters_nil] at skipped
    exact some (Except.ok.inj skipped).symm
  rw [chop, if_neg more]
  split
  · rename_i failed
    rw [skipped] at failed
    cases failed
  · rename_i again
    rw [skipped] at again
    cases again
    rw [if_neg some]
    split
    · rename_i failed
      rw [copied] at failed
      cases failed
    · rename_i again
      rw [copied] at again
      cases again
      rfl

end Skip

/-- So many spaces. -/
def spaces (n : Nat) : List UInt8 := List.replicate n chSpace

theorem skipDelimiters_spaces (n : Nat) (rest : List UInt8) :
    rtGetOptSkipDelimiters defaultSeparators (spaces n ++ rest) =
      rtGetOptSkipDelimiters defaultSeparators rest := by
  induction n with
  | zero => rfl
  | succ n ih =>
    have step : rtGetOptSkipDelimiters defaultSeparators
        (rtStrPutCp chSpace.toNat ++ (spaces n ++ rest)) = _ :=
      skipDelimiters_put (isCp_plain (by decide) (by decide)) _
    rw [if_pos (by decide), rtStrPutCp_plain (by decide), ih] at step
    exact step

/-- An argument on the command line does not begin with a separator. -/
theorem skipDelimiters_putArg (valid : IsUtf8 arg) (some : arg ≠ []) (rest : List UInt8) :
    rtGetOptSkipDelimiters defaultSeparators (putArg quoteBourneSh arg ++ rest) =
      .ok (putArg quoteBourneSh arg ++ rest) := by
  obtain ⟨cps, all, rfl⟩ := valid
  by_cases quoting : rtGetOpArgvRequiresQuoting (putCps cps) quoteBourneSh = true
  · rw [putArg, if_neg (by simp [quoting]), if_neg (by decide)]
    have step : rtGetOptSkipDelimiters defaultSeparators
        (rtStrPutCp chSingle.toNat ++ (putBourneSh (putCps cps) ++ [chSingle] ++ rest)) = _ :=
      skipDelimiters_put (isCp_plain (by decide) (by decide)) _
    rw [if_neg (by decide), rtStrPutCp_plain (by decide)] at step
    simpa using step
  · have none := Bool.eq_false_iff.mpr quoting
    rw [putArg, if_pos (by simp [none])]
    cases cps with
    | nil => exact absurd rfl some
    | cons uc cps =>
      have split : putCps (uc :: cps) = rtStrPutCp uc ++ putCps cps := rfl
      have plain := (unquoted_of_not_requiresQuoting none uc mem_cons_self).2.2
      rw [split, append_assoc, skipDelimiters_put (all uc mem_cons_self),
        if_neg (by simp [plain])]

theorem chop_spaces (n : Nat) : chop defaultSeparators (spaces n) = .ok [] := by
  have skipped := skipDelimiters_spaces n []
  rw [append_nil, skipDelimiters_nil] at skipped
  rw [chop]
  split
  · rfl
  · split
    · rename_i failed
      rw [skipped] at failed
      cases failed
    · rename_i again
      rw [skipped] at again
      cases again
      rfl

theorem putMore_cons (arg : List UInt8) (args : List (List UInt8)) :
    putMore quoteBourneSh (arg :: args) = chSpace :: putArgs quoteBourneSh (arg :: args) := by
  simp [putMore, putArgs]

/-- What comes back from a command line are the arguments that are not empty. -/
theorem chop_putArgs (valid : ∀ arg ∈ args, IsUtf8 arg) (n : Nat) :
    chop defaultSeparators (spaces n ++ putArgs quoteBourneSh args) =
      .ok (args.filter (· ≠ [])) := by
  induction args generalizing n with
  | nil => simpa [putArgs] using chop_spaces n
  | cons arg args ih =>
    have tail := ih fun arg mem => valid arg (mem_cons_of_mem _ mem)
    by_cases some : arg = []
    · subst some
      rw [filter_cons_of_neg (by simp)]
      cases args with
      | nil => simpa [putArgs, putArg, putMore, rtGetOpArgvRequiresQuoting] using chop_spaces n
      | cons arg args =>
        have line : spaces n ++ putArgs quoteBourneSh ([] :: arg :: args) =
            spaces (n + 1) ++ putArgs quoteBourneSh (arg :: args) := by
          have empty : putArg quoteBourneSh [] = [] := rfl
          rw [putArgs, empty, putMore_cons, spaces, spaces, replicate_succ']
          simp
        rw [line, tail]
    · have skipped := skipDelimiters_putArg (valid arg mem_cons_self) some
        (putMore quoteBourneSh args)
      have begun : putArg quoteBourneSh arg ++ putMore quoteBourneSh args ≠ [] := by
        intro empty
        have none := (append_eq_nil_iff.mp empty).1
        unfold putArg at none
        split_ifs at none
        · exact some none
        · exact absurd none (by simp)
        · exact absurd none (by simp)
      rw [← skipDelimiters_spaces n] at skipped
      have copied := copyArg_putArg (valid arg mem_cons_self) (putMore quoteBourneSh args)
      rw [filter_cons_of_pos (by simpa using some), putArgs]
      cases args with
      | nil =>
        rw [show putMore quoteBourneSh [] = [] from rfl, copyArg_end] at copied
        rw [chop_of_copied skipped begun copied, if_pos rfl]
        simp
      | cons next args =>
        rw [putMore_cons, copyArg_plain (by decide) (by decide), if_pos rfl, if_neg (by decide),
          if_pos (by decide)] at copied
        rw [chop_of_copied skipped begun (by rw [putMore_cons, copied]; rfl), if_neg (by decide)]
        have rest := tail 0
        rw [spaces, replicate_zero, nil_append] at rest
        rw [rest]
        simp [Except.map]

theorem fromString_ok (psz : List UInt8) (args : List (List UInt8)) :
    rtGetOptArgvFromString psz none = .ok args ↔ chop defaultSeparators psz = .ok args := by
  have read : rtGetOptArgvFromString psz none = (chop defaultSeparators psz).mapError .string := rfl
  rw [read]
  cases chop defaultSeparators psz with
  | error rc => simp [Except.mapError]
  | ok args' => simp [Except.mapError]

/-- A command line leads back to its arguments just if they are strings of code points and none
of them is empty. -/
theorem argv_round_trip (args : List (List UInt8)) :
    (rtGetOptArgvToString args quoteBourneSh).map (rtGetOptArgvFromString · none) =
        some (.ok args) ↔
      ∀ arg ∈ args, IsUtf8 arg ∧ arg ≠ [] := by
  have line : rtGetOptArgvToString args quoteBourneSh = some (putArgs quoteBourneSh args) :=
    if_neg (by decide)
  rw [line, Option.map_some, Option.some.injEq, fromString_ok]
  constructor
  · intro chopped arg mem
    have valid := chop_isUtf8 chopped
    have back : chop defaultSeparators (putArgs quoteBourneSh args) = _ := chop_putArgs valid 0
    rw [chopped, Except.ok.injEq] at back
    have kept := filter_eq_self.mp back.symm arg mem
    exact ⟨valid arg mem, by simpa using kept⟩
  · intro all
    have back : chop defaultSeparators (putArgs quoteBourneSh args) = _ :=
      chop_putArgs (fun arg mem => (all arg mem).1) 0
    rw [back, filter_eq_self.mpr fun arg mem => by simpa using (all arg mem).2]

/-- The array of an empty argument does not come back. -/
theorem argv_round_trip_empty :
    (rtGetOptArgvToString [[]] quoteBourneSh).map (rtGetOptArgvFromString · none) ≠
      some (.ok [[]]) := by
  have line : rtGetOptArgvToString [[]] quoteBourneSh = some [] := rfl
  rw [line, Option.map_some, ne_eq, Option.some.injEq, fromString_ok, chop_nil]
  exact fun none => by cases none

end VBox.Runtime.GetOptArgv
