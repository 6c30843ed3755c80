import VBox.Lib.Lap
import Mathlib.Logic.Function.Basic

/-!
The part of a list that stands in a ring.

The item with the number `i` has the place `i % size`. A ring holds a list from a number on if
every later item stands in its place; an item more may be put in as long as less than a lap is
held. Counters that only count modulo a power of two larger than the ring tell apart what is less
than their own lap apart.
-/

namespace VBox.Lib

open List

variable {α : Type}

/-- The items from number `start` on stand in their places. -/
def Holds (ring : Nat → α) (size : Nat) (items : List α) (start : Nat) : Prop :=
  ∀ i (h : i < items.length), start ≤ i → ring (i % size) = items[i]

namespace Holds

variable {ring : Nat → α} {size start : Nat} {items : List α}

theorem nil : Holds ring size [] start := fun _ h => absurd h (Nat.not_lt_zero _)

theorem later {start' : Nat} (holds : Holds ring size items start) (order : start ≤ start') :
    Holds ring size items start' :=
  fun i h above => holds i h (order.trans above)

/-- One item more, while less than a lap is held. -/
theorem push (holds : Holds ring size items start) (room : items.length < start + size) (x : α) :
    Holds (Function.update ring (items.length % size) x) size (items ++ [x]) start := by
  intro i h above
  rw [length_append, length_singleton] at h
  rcases Nat.lt_or_eq_of_le (Nat.le_of_lt_succ h) with old | last
  · have place : i % size ≠ items.length % size := by
      intro same
      exact old.ne (place_inj old.le (by omega) same)
    rw [Function.update_of_ne place, getElem_append_left old]
    exact holds i old above
  · subst last
    rw [Function.update_self, getElem_concat_length rfl]

/-- Reading on from a number gives the items from there. -/
theorem read (holds : Holds ring size items start) {n : Nat} (inside : start + n ≤ items.length) :
    (range n).map (fun k => ring ((start + k) % size)) = (items.drop start).take n := by
  apply ext_getElem
  · rw [length_map, length_range, length_take, length_drop]
    omega
  · intro k below _
    rw [length_map, length_range] at below
    rw [getElem_map, getElem_range, getElem_take, getElem_drop]
    exact holds _ (by omega) (Nat.le_add_right _ _)

end Holds

/-! ### Counters that wrap -/

/-- A counter modulo a multiple of the ring size names the same place. -/
theorem wrapped_place {size lap : Nat} (divides : size ∣ lap) (i : Nat) :
    i % lap % size = i % size :=
  Nat.mod_mod_of_dvd i divides

/-- The distance of two wrapped counters less than a lap apart. -/
theorem wrapped_distance {lap i j : Nat} (order : i ≤ j) (near : j < i + lap) :
    (j % lap + lap - i % lap) % lap = j - i := by
  have positive : 0 < lap := by omega
  have below := Nat.mod_lt i positive
  have first := Nat.div_add_mod i lap
  have second := Nat.div_add_mod j lap
  have shifted : j % lap + lap - i % lap + i % lap = j % lap + lap := by omega
  have same : (j % lap + lap - i % lap) + i ≡ (j - i) + i [MOD lap] := by
    have left : (j % lap + lap - i % lap) + i % lap ≡ (j - i) + i [MOD lap] := by
      rw [shifted, Nat.sub_add_cancel order]
      exact (Nat.add_mod_right _ _).trans (Nat.mod_mod _ _)
    exact (Nat.ModEq.add_left _ (Nat.mod_modEq i lap).symm).trans left
  calc (j % lap + lap - i % lap) % lap = (j - i) % lap := Nat.ModEq.add_right_cancel' i same
    _ = j - i := Nat.mod_eq_of_lt (by omega)

end VBox.Lib
