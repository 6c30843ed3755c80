import Mathlib.NumberTheory.Padics.PadicVal.Basic

/-!
The largest power of two that divides a number, and what masks built from the number
do below it and at it.
-/

namespace VBox.Lib

/-- The largest power of two dividing `n`. -/
def twoPart (n : Nat) : Nat := 2 ^ padicValNat 2 n

theorem twoPart_mul_odd (k : Nat) {m : Nat} (odd : Odd m) : twoPart (2 ^ k * m) = 2 ^ k := by
  have positive : m ≠ 0 := by
    rintro rfl
    exact absurd odd (by decide)
  have free : padicValNat 2 m = 0 := padicValNat.eq_zero_of_not_dvd fun divides =>
    Nat.not_even_iff_odd.mpr odd (even_iff_two_dvd.mpr divides)
  rw [twoPart, padicValNat.mul (by positivity) positive, padicValNat.prime_pow, free, Nat.add_zero]

variable {n : Nat}

/-- A number is an odd multiple of its two-part. -/
theorem exists_twoPart (nonzero : n ≠ 0) : ∃ k m, Odd m ∧ n = 2 ^ k * m ∧ twoPart n = 2 ^ k := by
  obtain ⟨k, m, odd, rfl⟩ := Nat.exists_eq_two_pow_mul_odd nonzero
  exact ⟨k, m, odd, rfl, twoPart_mul_odd k odd⟩

/-- A power of two is its own two-part, and no other number is. -/
theorem twoPart_eq_self_iff (nonzero : n ≠ 0) : twoPart n = n ↔ n.isPowerOfTwo := by
  constructor
  · intro same
    exact ⟨_, same.symm⟩
  · rintro ⟨k, rfl⟩
    simpa using twoPart_mul_odd k odd_one

theorem twoPart_lt_of_not_isPowerOfTwo (nonzero : n ≠ 0) (other : ¬ n.isPowerOfTwo) :
    twoPart n < n := by
  have divides : twoPart n ∣ n := by
    obtain ⟨k, m, -, split, part⟩ := exists_twoPart nonzero
    exact ⟨m, by rw [part, split]⟩
  have differs : twoPart n ≠ n := fun same => other ((twoPart_eq_self_iff nonzero).mp same)
  exact lt_of_le_of_ne (Nat.le_of_dvd (Nat.pos_of_ne_zero nonzero) divides) differs

/-! ### Masks -/

variable {x : Nat}

/-- Below a power of two only the mask's low bits matter. -/
theorem and_eq_and_mod {k : Nat} (small : x < 2 ^ k) (mask : Nat) :
    x &&& mask = x &&& (mask % 2 ^ k) := by
  have bounded : x &&& mask < 2 ^ k := lt_of_le_of_lt Nat.and_le_left small
  calc x &&& mask = (x &&& mask) % 2 ^ k := (Nat.mod_eq_of_lt bounded).symm
    _ = x % 2 ^ k &&& mask % 2 ^ k := Nat.and_mod_two_pow
    _ = x &&& (mask % 2 ^ k) := by rw [Nat.mod_eq_of_lt small]

/-- A single bit against a mask. -/
theorem two_pow_and (k mask : Nat) : 2 ^ k &&& mask = if mask.testBit k then 2 ^ k else 0 := by
  apply Nat.eq_of_testBit_eq
  intro i
  by_cases here : k = i
  · subst here
    cases set : mask.testBit k <;> simp [set]
  · cases set : mask.testBit k <;> simp [here]

/-- Below the two-part of `n` no bit of `n` is set. -/
theorem and_eq_zero_of_lt_twoPart (nonzero : n ≠ 0) (small : x < twoPart n) : x &&& n = 0 := by
  obtain ⟨k, m, -, rfl, part⟩ := exists_twoPart nonzero
  rw [part] at small
  rw [and_eq_and_mod small, Nat.mul_mod_right, Nat.and_zero]

/-- The two-part is the lowest bit set. -/
theorem twoPart_and_self (nonzero : n ≠ 0) : twoPart n &&& n = twoPart n := by
  obtain ⟨k, m, odd, rfl, part⟩ := exists_twoPart nonzero
  have set : (2 ^ k * m).testBit k = true := by
    simpa [Nat.testBit_two_pow_mul, Nat.testBit_zero] using Nat.odd_iff.mp odd
  rw [part, two_pow_and, if_pos set]

/-- Below the two-part of `n` the mask `n - 1` lets everything through. -/
theorem and_pred_of_lt_twoPart (nonzero : n ≠ 0) (small : x < twoPart n) : x &&& (n - 1) = x := by
  obtain ⟨k, m, odd, rfl, part⟩ := exists_twoPart nonzero
  rw [part] at small
  have positive : 0 < m := odd.pos
  have low : (2 ^ k * m - 1) % 2 ^ k = 2 ^ k - 1 := by
    obtain ⟨j, rfl⟩ : ∃ j, m = j + 1 := ⟨m - 1, by omega⟩
    have split : 2 ^ k * (j + 1) - 1 = (2 ^ k - 1) + 2 ^ k * j := by
      have := Nat.two_pow_pos k
      rw [Nat.mul_succ]
      omega
    rw [split, Nat.add_mul_mod_self_left]
    exact Nat.mod_eq_of_lt (Nat.sub_lt (Nat.two_pow_pos k) Nat.one_pos)
  rw [and_eq_and_mod small, low, Nat.and_two_pow_sub_one_eq_mod, Nat.mod_eq_of_lt small]

/-- The mask `n - 1` has a hole at the two-part of `n`. -/
theorem twoPart_and_pred (nonzero : n ≠ 0) : twoPart n &&& (n - 1) = 0 := by
  obtain ⟨k, m, odd, rfl, part⟩ := exists_twoPart nonzero
  obtain ⟨j, rfl⟩ := odd
  have split : 2 ^ k * (2 * j + 1) - 1 = 2 ^ k * (2 * j) + (2 ^ k - 1) := by
    have := Nat.two_pow_pos k
    rw [Nat.mul_succ]
    omega
  have clear : (2 ^ k * (2 * j + 1) - 1).testBit k = false := by
    rw [split, Nat.testBit_two_pow_mul_add _ (Nat.sub_lt (Nat.two_pow_pos k) Nat.one_pos)]
    simp [Nat.testBit_zero]
  rw [part, two_pow_and, clear]
  rfl

end VBox.Lib
