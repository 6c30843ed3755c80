import Mathlib.Order.Nat

/-!
A halving search that keeps the index it has probed.

`halve` goes on in the half a probe points to. To the left the window ends in front of
the index just probed, to the right it begins with it, so that a window of one element
does not shrink any more. `halve_finds`, `halve_empty` and `halve_stuck` say what becomes
of a search by the number of elements that point to the right.
-/

namespace VBox.Lib

/-- The index to probe in a window. -/
def middle (idxMin idxMax : Nat) : Nat := idxMin + (idxMax - idxMin) / 2

/-- Rounds of the search; without a result when the fuel does not suffice. `some none` is
an empty window. -/
def halve (probe : Nat → Ordering) : Nat → Nat → Nat → Option (Option Nat)
  | 0, _, _ => none
  | fuel + 1, idxMin, idxMax =>
      if idxMin < idxMax then
        match probe (middle idxMin idxMax) with
        | .lt => halve probe fuel idxMin (middle idxMin idxMax)
        | .gt => halve probe fuel (middle idxMin idxMax) idxMax
        | .eq => some (some (middle idxMin idxMax))
      else some none

example : halve (fun _ => .eq) 1 0 1 = some (some 0) := by
  rw [halve]
  rfl

section Halving

variable {probe : Nat → Ordering} {fuel idxMin idxMax n r : Nat}

theorem middle_bounds (some : idxMin < idxMax) :
    idxMin ≤ middle idxMin idxMax ∧ middle idxMin idxMax < idxMax := by
  unfold middle
  omega

/-- A result does not change with more fuel. -/
theorem halve_mono {result : Option Nat} {fuel' : Nat} (more : fuel ≤ fuel')
    (found : halve probe fuel idxMin idxMax = some result) :
    halve probe fuel' idxMin idxMax = some result := by
  induction fuel generalizing fuel' idxMin idxMax with
  | zero => cases found
  | succ fuel ih =>
    cases fuel' with
    | zero => cases more
    | succ fuel' =>
      have more := Nat.le_of_succ_le_succ more
      rw [halve] at found ⊢
      split
      · rename_i nonempty
        rw [if_pos nonempty] at found
        cases probed : probe (middle idxMin idxMax) with
        | lt =>
          rw [probed] at found
          exact ih more found
        | gt =>
          rw [probed] at found
          exact ih more found
        | eq =>
          rw [probed] at found
          exact found
      · rename_i empty
        rwa [if_neg empty] at found

/-- The search comes to the one element that points neither way. -/
theorem halve_finds (before : ∀ i < r, probe i = .gt) (here : probe r = .eq)
    (behind : ∀ i, r < i → i < n → probe i = .lt) (low : idxMin ≤ r) (high : r < idxMax)
    (whole : idxMax ≤ n) (enough : idxMax - idxMin < fuel) :
    halve probe fuel idxMin idxMax = some (some r) := by
  induction fuel generalizing idxMin idxMax with
  | zero => cases enough
  | succ fuel ih =>
    have inside := middle_bounds (Nat.lt_of_le_of_lt low high)
    rw [halve, if_pos (Nat.lt_of_le_of_lt low high)]
    rcases Nat.lt_trichotomy (middle idxMin idxMax) r with less | same | more
    · rw [before _ less]
      -- there is more than one element, or the one to the right would be `r`
      have shrinks : idxMin < middle idxMin idxMax := by
        unfold middle at less ⊢
        omega
      exact ih less.le high whole (by omega)
    · rw [same, here]
    · rw [behind _ more (inside.2.trans_le whole)]
      exact ih low more (by omega) (by omega)

/-- With every element pointing to the left the window becomes empty. -/
theorem halve_empty (behind : ∀ i < n, probe i = .lt) (whole : idxMax ≤ n)
    (enough : idxMax - idxMin < fuel) : halve probe fuel idxMin idxMax = some none := by
  induction fuel generalizing idxMax with
  | zero => cases enough
  | succ fuel ih =>
    rw [halve]
    split
    · rename_i nonempty
      have inside := middle_bounds nonempty
      rw [behind _ (inside.2.trans_le whole)]
      exact ih (by omega) (by omega)
    · rfl

/-- With an element pointing to the right, and none that does not point, the search goes on
for ever: the last element that points to the right stays in the window. -/
theorem halve_stuck (before : ∀ i < r, probe i = .gt)
    (behind : ∀ i, r ≤ i → i < n → probe i = .lt) (low : idxMin < r) (high : r ≤ idxMax)
    (whole : idxMax ≤ n) : halve probe fuel idxMin idxMax = none := by
  induction fuel generalizing idxMin idxMax with
  | zero => rfl
  | succ fuel ih =>
    have nonempty := low.trans_le high
    have inside := middle_bounds nonempty
    rw [halve, if_pos nonempty]
    rcases Nat.lt_or_ge (middle idxMin idxMax) r with less | more
    · rw [before _ less]
      exact ih less high whole
    · rw [behind _ more (inside.2.trans_le whole)]
      exact ih low more (inside.2.le.trans whole)

end Halving

end VBox.Lib
