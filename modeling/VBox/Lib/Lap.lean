import Mathlib.Data.Nat.ModEq
import Mathlib.Tactic.Linarith

/-!
Running positions in a ring.

A ring of `size` places is run through lap after lap: the place of the position `x` is
`x % size`. Positions less than a lap apart have places of their own.
-/

namespace VBox.Lib

variable {size x y k : Nat}

theorem place_inj (order : x ≤ y) (near : y < x + size) (same : x % size = y % size) : x = y := by
  have apart : (y - x) % size = 0 := Nat.sub_mod_eq_zero_of_mod_eq same.symm
  rw [Nat.mod_eq_of_lt (by omega)] at apart
  omega

theorem place_add (inside : x % size + k < size) : (x + k) % size = x % size + k := by
  rw [Nat.add_mod, Nat.mod_eq_of_lt (Nat.lt_of_le_of_lt (Nat.le_add_left k _) inside),
    Nat.mod_eq_of_lt inside]

/-- The last place of a lap is followed by the first one of the next. -/
theorem place_add_end (last : x % size + k = size) : (x + k) % size = 0 := by
  have whole : x + k = size * (x / size) + size := by
    have split := Nat.div_add_mod x size
    omega
  rw [whole, Nat.add_mod_right, Nat.mul_mod_right]

/-- The start of the lap after the one of `x`. -/
def nextLap (size x : Nat) : Nat := x - x % size + size

theorem nextLap_place : nextLap size x % size = 0 := by
  have split := Nat.div_add_mod x size
  have whole : nextLap size x = size * (x / size) + size := by
    rw [nextLap]
    omega
  rw [whole, Nat.add_mod_right, Nat.mul_mod_right]

theorem nextLap_add_place (below : k < size) : (nextLap size x + k) % size = k := by
  rw [Nat.add_mod, nextLap_place, Nat.zero_add, Nat.mod_mod, Nat.mod_eq_of_lt below]

/-- Two positions less than a lap apart are in one lap, or the second one is in the next. -/
theorem lap_cases (order : x ≤ y) (near : y < x + size) :
    x % size ≤ y % size ∧ y - y % size = x - x % size ∨
      y % size < x % size ∧ y - y % size = nextLap size x := by
  have first := Nat.div_add_mod x size
  have second := Nat.div_add_mod y size
  have pos : 0 < size := by omega
  have low : x / size ≤ y / size := Nat.div_le_div_right order
  have high : y / size ≤ x / size + 1 := by
    rw [← Nat.add_div_right x pos]
    exact Nat.div_le_div_right (Nat.le_of_lt near)
  rcases Nat.lt_or_ge (x / size) (y / size) with next | here
  · have lap : y / size = x / size + 1 := by omega
    rw [lap, Nat.mul_add, Nat.mul_one] at second
    have below := Nat.mod_lt y pos
    refine .inr ⟨by omega, ?_⟩
    rw [nextLap]
    omega
  · have lap : y / size = x / size := by omega
    rw [lap] at second
    exact .inl ⟨by omega, by omega⟩

end VBox.Lib
