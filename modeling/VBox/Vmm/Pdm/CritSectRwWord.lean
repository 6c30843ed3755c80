import VBox.Vmm.Pdm.CritSectRw
import Mathlib.Tactic.Ring

/-!
The fields of the state word.

As long as a count fits its field, setting it changes no other field.
-/

namespace VBox.Vmm.Pdm

theorem setField_eq {k n u c : Nat} (small : c < 2 ^ n) (inside : k + n ≤ 64) :
    setField k n u c = u - field k n u * 2 ^ k + c * 2 ^ k := by
  have pos : 0 < 2 ^ k := Nat.two_pow_pos k
  have split : u = 2 ^ (k + n) * (u / 2 ^ k / 2 ^ n) + (field k n u * 2 ^ k + u % 2 ^ k) := by
    rw [field, Nat.pow_add]
    have low := Nat.div_add_mod u (2 ^ k)
    have high := Nat.div_add_mod (u / 2 ^ k) (2 ^ n)
    calc u = 2 ^ k * (u / 2 ^ k) + u % 2 ^ k := low.symm
      _ = 2 ^ k * (2 ^ n * (u / 2 ^ k / 2 ^ n) + u / 2 ^ k % 2 ^ n) + u % 2 ^ k := by rw [high]
      _ = _ := by ring
  have cleared : u - field k n u * 2 ^ k = 2 ^ (k + n) * (u / 2 ^ k / 2 ^ n) + u % 2 ^ k := by
    omega
  have below : u % 2 ^ k < 2 ^ k := Nat.mod_lt _ pos
  have fits : 2 ^ k * c + u % 2 ^ k < 2 ^ (k + n) := by
    rw [Nat.pow_add]
    calc 2 ^ k * c + u % 2 ^ k < 2 ^ k * c + 2 ^ k := by omega
      _ = 2 ^ k * (c + 1) := by ring
      _ ≤ 2 ^ k * 2 ^ n := Nat.mul_le_mul_left _ small
  have whole : c * 2 ^ k % 2 ^ 64 = 2 ^ k * c := by
    have bound : 2 ^ (k + n) ≤ 2 ^ 64 := Nat.pow_le_pow_right (by decide) inside
    rw [Nat.mul_comm, Nat.mod_eq_of_lt (by omega)]
  have lower : u % 2 ^ k < 2 ^ (k + n) := by omega
  calc setField k n u c = 2 ^ (k + n) * (u / 2 ^ k / 2 ^ n) + u % 2 ^ k ||| 2 ^ k * c := by
        rw [setField, whole, cleared]
    _ = 2 ^ (k + n) * (u / 2 ^ k / 2 ^ n) ||| (2 ^ k * c ||| u % 2 ^ k) := by
        rw [Nat.two_pow_add_eq_or_of_lt lower, Nat.or_assoc, Nat.or_comm (u % 2 ^ k)]
    _ = 2 ^ (k + n) * (u / 2 ^ k / 2 ^ n) + (2 ^ k * c + u % 2 ^ k) := by
        rw [← Nat.two_pow_add_eq_or_of_lt below, ← Nat.two_pow_add_eq_or_of_lt fits]
    _ = u - field k n u * 2 ^ k + c * 2 ^ k := by
        rw [cleared]
        ring

theorem field_lt (k n u : Nat) : field k n u < 2 ^ n := Nat.mod_lt _ (Nat.two_pow_pos n)

section Fields

variable {u c : Nat} {write : Bool}

theorem cntRd_lt : cntRd u < 32768 := field_lt 0 15 u

theorem cntWr_lt : cntWr u < 32768 := field_lt 16 15 u

theorem waitCntRd_lt : waitCntRd u < 32768 := field_lt 32 15 u

theorem setCntRd_eq (small : c < 32768) : setCntRd u c = u - u % 32768 + c := by
  have set := setField_eq (u := u) (k := 0) (n := 15) small (by decide)
  simpa [setCntRd, field] using set

theorem setCntWr_eq (small : c < 32768) :
    setCntWr u c = u - u / 65536 % 32768 * 65536 + c * 65536 := by
  have set := setField_eq (u := u) (k := 16) (n := 15) small (by decide)
  simpa [setCntWr, field] using set

theorem setDir_eq : setDir u write =
    u - u / 2147483648 % 2 * 2147483648 + (if write then 1 else 0) * 2147483648 := by
  have small : (if write then 1 else 0) < 2 ^ 1 := by cases write <;> decide
  have set := setField_eq (u := u) (k := 31) (n := 1) small (by decide)
  simpa [setDir, field] using set

theorem setWaitCntRd_eq (small : c < 32768) :
    setWaitCntRd u c = u - u / 4294967296 % 32768 * 4294967296 + c * 4294967296 := by
  have set := setField_eq (u := u) (k := 32) (n := 15) small (by decide)
  simpa [setWaitCntRd, field] using set

/-- What a word holds. -/
structure Fields (u rd wr : Nat) (write : Bool) (wait : Nat) : Prop where
  rd : cntRd u = rd
  wr : cntWr u = wr
  dir : dirWrite u = write
  wait : waitCntRd u = wait

theorem fields_self (u : Nat) : Fields u (cntRd u) (cntWr u) (dirWrite u) (waitCntRd u) :=
  ⟨rfl, rfl, rfl, rfl⟩

variable {rd wr wait : Nat}

theorem fields_iff : Fields u rd wr write wait ↔ u % 32768 = rd ∧ u / 65536 % 32768 = wr ∧
      u / 2147483648 % 2 = (if write then 1 else 0) ∧ u / 4294967296 % 32768 = wait := by
  have direction : dirWrite u = write ↔ u / 2147483648 % 2 = (if write then 1 else 0) := by
    have bit : field 31 1 u = u / 2147483648 % 2 := rfl
    rw [dirWrite, bit]
    rcases Nat.mod_two_eq_zero_or_one (u / 2147483648) with zero | one
    · rw [zero]
      cases write <;> decide
    · rw [one]
      cases write <;> decide
  constructor
  · rintro ⟨first, second, third, fourth⟩
    exact ⟨by simpa [cntRd, field] using first, by simpa [cntWr, field] using second,
      direction.mp third, by simpa [waitCntRd, field] using fourth⟩
  · rintro ⟨first, second, third, fourth⟩
    exact ⟨by simpa [cntRd, field] using first, by simpa [cntWr, field] using second,
      direction.mpr third, by simpa [waitCntRd, field] using fourth⟩

theorem Fields.setRd (fields : Fields u rd wr write wait) (small : c < 32768) :
    Fields (setCntRd u c) c wr write wait := by
  rw [setCntRd_eq small]
  rw [fields_iff] at *
  omega

theorem Fields.setWr (fields : Fields u rd wr write wait) (small : c < 32768) :
    Fields (setCntWr u c) rd c write wait := by
  rw [setCntWr_eq small]
  rw [fields_iff] at *
  omega

theorem Fields.setDir {write' : Bool} (fields : Fields u rd wr write wait) :
    Fields (setDir u write') rd wr write' wait := by
  rw [setDir_eq]
  rw [fields_iff] at *
  cases write' <;> simp only [if_true, Bool.false_eq_true, if_false] <;> omega

theorem Fields.setWait (fields : Fields u rd wr write wait) (small : c < 32768) :
    Fields (setWaitCntRd u c) rd wr write c := by
  rw [setWaitCntRd_eq small]
  rw [fields_iff] at *
  omega

end Fields

theorem dec64_eq {c : Nat} (pos : 0 < c) (small : c < 2 ^ 64) : dec64 c = c - 1 := by
  rw [dec64]
  omega

theorem inc32_eq {c : Nat} (small : c + 1 < 2 ^ 32) : inc32 c = c + 1 := Nat.mod_eq_of_lt small

theorem dec32_eq {c : Nat} (pos : 0 < c) (small : c < 2 ^ 32) : dec32 c = c - 1 := by
  rw [dec32]
  omega

end VBox.Vmm.Pdm
