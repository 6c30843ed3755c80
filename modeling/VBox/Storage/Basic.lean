import Mathlib.Algebra.Group.Nat.Defs

/-!
Status codes and open flags of the storage code and the fixed-width arithmetic
it computes with. Where the C code converts to `unsigned` or `uint64_t` the model applies
`u32` or `u64`; sums of 64-bit file offsets are plain, since a host file never
reaches 2^63 bytes.
-/

namespace VBox.Storage

/-- The VBox status codes the modelled functions return. -/
inductive Status where
  | vinfSuccess
  | verrInvalidParameter
  | verrNoMemory
  | verrNotSupported
  | verrEof
  | verrDiskFull
  | verrGeneralFailure
  | verrVdInvalidType
  | verrVdInvalidSize
  | verrVdImageReadOnly
  | verrVdBlockFree
  | verrVdReadOutOfRange
  | verrVdDiscardAlignmentNotMet
  | verrVdVdiInvalidHeader
  | verrVdVdiUnsupportedVersion
  deriving DecidableEq, Repr

/-- `RT_SUCCESS`. -/
def Status.ok (rc : Status) : Bool := rc == .vinfSuccess

@[simp] theorem Status.ok_iff {rc : Status} : rc.ok = true ↔ rc = .vinfSuccess := by
  simp [Status.ok]

/-! ### Sequencing

A function that works on a state returns its status beside the new state, or
`none` where the C code is undefined. -/

section Sequencing

variable {σ ι : Type}

/-- Go on unless the status is a failure. -/
def andThen (result : Option (Status × σ)) (next : σ → Option (Status × σ)) :
    Option (Status × σ) :=
  result.bind fun (rc, s) => if rc = .vinfSuccess then next s else some (rc, s)

/-- A loop that breaks on the first failure. -/
def forEach (body : ι → σ → Option (Status × σ)) : List ι → σ → Option (Status × σ)
  | [], s => some (.vinfSuccess, s)
  | i :: rest, s => andThen (body i s) (forEach body rest)

/-- A loop whose rounds are all defined is defined; the invariant holds where it
stops, with whatever status. -/
theorem forEach_total {body : ι → σ → Option (Status × σ)} {inv : σ → Prop} {is : List ι}
    (keeps : ∀ i ∈ is, ∀ {s}, inv s → ∃ rc t, body i s = some (rc, t) ∧ inv t) {s : σ}
    (start : inv s) : ∃ rc t, forEach body is s = some (rc, t) ∧ inv t := by
  induction is generalizing s with
  | nil => exact ⟨.vinfSuccess, s, rfl, start⟩
  | cons i rest ih =>
    obtain ⟨rc, t, round, kept⟩ := keeps i List.mem_cons_self start
    by_cases success : rc = .vinfSuccess
    · obtain ⟨rc', u, remaining, final⟩ :=
        ih (fun j member => keeps j (List.mem_cons_of_mem i member)) kept
      exact ⟨rc', u, by simp [forEach, andThen, round, success, remaining], final⟩
    · exact ⟨rc, t, by simp [forEach, andThen, round, success], kept⟩

/-- A loop over the numbers below `n` with an invariant that counts the rounds. -/
theorem forEach_range {body : Nat → σ → Option (Status × σ)} {inv : Nat → σ → Prop} {n : Nat}
    (keeps : ∀ k < n, ∀ {s}, inv k s → ∃ t, body k s = some (.vinfSuccess, t) ∧ inv (k + 1) t)
    {s : σ} (start : inv 0 s) :
    ∃ t, forEach body (List.range n) s = some (.vinfSuccess, t) ∧ inv n t := by
  have rounds : ∀ len k s, k + len = n → inv k s →
      ∃ t, forEach body (List.range' k len) s = some (.vinfSuccess, t) ∧ inv n t := by
    intro len
    induction len with
    | zero =>
      intro k s total here
      rw [← total]
      exact ⟨s, rfl, here⟩
    | succ len ih =>
      intro k s total here
      obtain ⟨t, round, next⟩ := keeps k (by omega) here
      obtain ⟨u, remaining, final⟩ := ih (k + 1) t (by omega) next
      exact ⟨u, by simp [List.range'_succ, forEach, andThen, round, remaining], final⟩
  rw [List.range_eq_range']
  exact rounds n 0 s (by omega) start

end Sequencing

/-- The `VD_OPEN_FLAGS_*` bits the modelled code looks at. -/
structure OpenFlags where
  readOnly : Bool := false
  honorZeroes : Bool := false
  honorSame : Bool := false
  discard : Bool := false
  ignoreFlush : Bool := false
  informAboutZeroBlocks : Bool := false
  deriving DecidableEq, Repr

/-- Conversion to `unsigned` / `uint32_t`. -/
def u32 (n : Nat) : Nat := n % 2 ^ 32

/-- Conversion to `uint64_t`. -/
def u64 (n : Nat) : Nat := n % 2 ^ 64

/-- Subtraction of two `uint64_t` values. -/
def u64Sub (a b : Nat) : Nat := if b ≤ a then a - b else 2 ^ 64 - (b - a)

theorem u32_of_lt {n : Nat} (bound : n < 2 ^ 32) : u32 n = n := Nat.mod_eq_of_lt bound

theorem u32_lt (n : Nat) : u32 n < 2 ^ 32 := Nat.mod_lt _ (by decide)

theorem u32_le (n : Nat) : u32 n ≤ n := Nat.mod_le _ _

theorem u64Sub_of_le {a b : Nat} (le : b ≤ a) : u64Sub a b = a - b := if_pos le

/-- Subtraction of two `uint32_t` values. -/
def u32Sub (a b : Nat) : Nat := if b ≤ a then a - b else 2 ^ 32 - (b - a)

/-- `RT_ALIGN_32`: round up to a multiple of a power of two, in 32 bits. -/
def rtAlign32 (n alignment : Nat) : Nat :=
  let mask := u32Sub (u32 alignment) 1
  u32 (u32 n + mask) &&& (2 ^ 32 - 1 - mask)

end VBox.Storage
