import Mathlib.Algebra.Order.BigOperators.Group.Finset

/-!
Sums over the members of a finite system, one of which changes.
-/

namespace VBox.Lib

open Finset Function

variable {ι α : Type} [Fintype ι] [DecidableEq ι] {f : ι → α} {i : ι} {x : α}

omit [Fintype ι] in
/-- A sum gains what the changed member gains. -/
theorem sum_update_of_mem {s : Finset ι} (mem : i ∈ s) (g : α → Nat) :
    ∑ t ∈ s, g (update f i x t) + g (f i) = ∑ t ∈ s, g (f t) + g x := by
  have others : ∑ t ∈ s.erase i, g (update f i x t) = ∑ t ∈ s.erase i, g (f t) :=
    sum_congr rfl fun t member => by rw [update_of_ne (ne_of_mem_erase member)]
  rw [← add_sum_erase s _ mem, ← add_sum_erase s (fun t => g (f t)) mem, others, update_self]
  ac_rfl

theorem sum_update (g : α → Nat) : ∑ t, g (update f i x t) + g (f i) = ∑ t, g (f t) + g x :=
  sum_update_of_mem (mem_univ i) g

omit [DecidableEq ι] in
theorem le_sum (g : α → Nat) (i : ι) : g (f i) ≤ ∑ t, g (f t) :=
  single_le_sum (f := fun t => g (f t)) (fun _ _ => Nat.zero_le _) (mem_univ i)

/-- Where one member makes up the sum, the others add nothing. -/
theorem eq_zero_of_sum_le (g : α → Nat) (all : ∑ t, g (f t) ≤ g (f i)) {t : ι} (other : t ≠ i) :
    g (f t) = 0 := by
  rw [← add_sum_erase univ (fun t => g (f t)) (mem_univ i)] at all
  have least : g (f t) ≤ ∑ t ∈ univ.erase i, g (f t) :=
    single_le_sum (f := fun t => g (f t)) (fun _ _ => Nat.zero_le _)
      (mem_erase.mpr ⟨other, mem_univ t⟩)
  omega

end VBox.Lib
