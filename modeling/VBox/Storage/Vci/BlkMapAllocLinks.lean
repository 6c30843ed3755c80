import VBox.Storage.Vci.BlkMapAlloc

/-!
What the operations of the block map do to the list of its descriptors.

`Linked` says which descriptors form the list. The search picks the first of the
smallest ranges (`searchBestFit_eq`); a split at the end of the list and the merging of
two neighbours keep the list linked.
-/

namespace VBox.Storage.Vci.BlkMap

open VBox.Lib List Option

variable {s : BlkMap} {l xs ys : List Nat} {p q n off fuel : Nat} {before best : Option Nat}

/-- The descriptors in memory form the list `l`. -/
structure Linked (s : BlkMap) (l : List Nat) : Prop where
  links : s.links.Represents l
  tail : s.pRangesTail = l.getLast?
  blocks : s.blocks.Perm l

theorem Linked.notMem (linked : s.Linked (xs ++ p :: ys)) : p ∉ xs ∧ p ∉ ys := by
  have nodup := linked.links.nodup
  rw [nodup_middle, nodup_cons, mem_append, not_or] at nodup
  exact nodup.1

theorem vciBlkMapCreate_linked (cBlocks : UInt64) : (vciBlkMapCreate cBlocks p).Linked [p] :=
  ⟨Links.represents_empty.insertFirst p, rfl, .refl _⟩

section Walks

theorem walk_eq (segment : s.links.Segment before l none) (enough : l.length ≤ fuel) :
    s.walk fuel l.head? = l := by
  induction l generalizing before fuel with
  | nil => cases fuel <;> rfl
  | cons p l ih =>
    obtain ⟨-, next, rest⟩ := segment
    cases fuel with
    | zero => cases enough
    | succ fuel =>
      rw [or_none] at next
      rw [head?_cons, walk, next, ih rest (Nat.le_of_succ_le_succ enough)]

theorem Linked.order_eq (linked : s.Linked l) : s.order = l := by
  rw [order, linked.links.head, linked.blocks.length_eq]
  exact walk_eq linked.links.segment le_rfl

/-- The best fit after another range has been looked at. -/
def pick (s : BlkMap) (n : Nat) (best : Option Nat) (p : Nat) : Option Nat :=
  if s.fitsBetter n best p then some p else best

/-- The first of the smallest free ranges of at least `n` blocks. -/
def smallest (s : BlkMap) (n : Nat) : Option Nat := s.order.foldl (s.pick n) none

/-- No range is better than an exact one. -/
theorem foldl_pick_exact (exact : (s.desc p).cBlocks = n) :
    l.foldl (s.pick n) (some p) = some p := by
  induction l with
  | nil => rfl
  | cons q l ih =>
    have worse : s.fitsBetter n (some p) q = false := by
      by_contra better
      simp only [fitsBetter, all_some, Bool.not_eq_false, Bool.and_eq_true,
        decide_eq_true_eq] at better
      omega
    rw [foldl_cons, pick, worse]
    exact ih

theorem searchBestFit_eq (segment : s.links.Segment before l none) (enough : l.length ≤ fuel) :
    s.searchBestFit n fuel l.head? best = some (l.foldl (s.pick n) best) := by
  induction l generalizing before best fuel with
  | nil => cases fuel <;> rfl
  | cons p l ih =>
    obtain ⟨-, next, rest⟩ := segment
    rw [or_none] at next
    cases fuel with
    | zero => cases enough
    | succ fuel =>
      have enough := Nat.le_of_succ_le_succ enough
      rw [head?_cons, searchBestFit, next, foldl_cons, pick]
      split
      case isTrue better =>
        split
        case isTrue exact => rw [foldl_pick_exact exact]
        case isFalse => exact ih rest enough
      case isFalse => exact ih rest enough

theorem Linked.searchBestFit (linked : s.Linked l) :
    s.searchBestFit n s.blocks.length s.links.head none = some (s.smallest n) := by
  rw [linked.links.head, searchBestFit_eq linked.links.segment linked.blocks.length_eq.ge,
    smallest, linked.order_eq]

/-- What is picked is free and large enough. -/
theorem foldl_pick (found : l.foldl (s.pick n) best = some p) :
    best = some p ∨ p ∈ l ∧ (s.desc p).fFree = true ∧ n ≤ (s.desc p).cBlocks := by
  induction l generalizing best with
  | nil => exact .inl found
  | cons q l ih =>
    rcases ih found with picked | ⟨member, fits⟩
    · rw [pick] at picked
      split at picked
      case isTrue better =>
        obtain rfl := some.inj picked
        simp only [fitsBetter, Bool.and_eq_true, decide_eq_true_eq] at better
        exact .inr ⟨mem_cons_self, better.1⟩
      case isFalse => exact .inl picked
    · exact .inr ⟨mem_cons_of_mem q member, fits⟩

theorem Linked.smallest_spec (linked : s.Linked l) (found : s.smallest n = some p) :
    p ∈ l ∧ (s.desc p).fFree = true ∧ n ≤ (s.desc p).cBlocks := by
  rw [smallest, linked.order_eq] at found
  rcases foldl_pick found with none | spec
  · cases none
  · exact spec

theorem findByBlock_eq (segment : s.links.Segment before (xs ++ p :: ys) none)
    (below : ∀ q ∈ xs, (s.desc q).offAddrStart < off) (here : (s.desc p).offAddrStart = off)
    (enough : (xs ++ p :: ys).length ≤ fuel) :
    s.findByBlock off fuel (xs ++ p :: ys).head? = some (some p) := by
  induction xs generalizing before fuel with
  | nil =>
    cases fuel with
    | zero => cases enough
    | succ fuel => rw [nil_append, head?_cons, findByBlock, here, if_neg (lt_irrefl _)]
  | cons q xs ih =>
    obtain ⟨-, next, rest⟩ := segment
    rw [or_none] at next
    cases fuel with
    | zero => cases enough
    | succ fuel =>
      rw [cons_append, head?_cons, findByBlock, if_pos (below q mem_cons_self), next]
      exact ih rest (fun q' member => below q' (mem_cons_of_mem q member))
        (Nat.le_of_succ_le_succ enough)

end Walks

section Operations

theorem setFree_linked {fFree : Bool} (linked : s.Linked l) : (s.setFree p fFree).Linked l :=
  ⟨linked.links, linked.tail, linked.blocks⟩

variable {fFlags : UInt32}

theorem countAllocated_linked (linked : s.Linked l) : (s.countAllocated n fFlags).Linked l := by
  unfold countAllocated
  split <;> exact ⟨linked.links, linked.tail, linked.blocks⟩

theorem countFreed_linked (linked : s.Linked l) : (s.countFreed n fFlags).Linked l := by
  unfold countFreed
  split <;> exact ⟨linked.links, linked.tail, linked.blocks⟩

@[simp] theorem countAllocated_desc : (s.countAllocated n fFlags).desc = s.desc := by
  unfold countAllocated
  split <;> rfl

@[simp] theorem countFreed_desc : (s.countFreed n fFlags).desc = s.desc := by
  unfold countFreed
  split <;> rfl

/-- A split of the last range keeps the back links, since no range is behind it. -/
theorem split_linked (linked : s.Linked (xs ++ [p])) (fresh : q ∉ s.blocks) :
    (s.split p q n).Linked (xs ++ [p, q]) := by
  have outside : q ∉ xs ++ [p] := fun member => fresh (linked.blocks.mem_iff.mpr member)
  have last : s.links.next p = none := linked.links.around.2
  have links : (s.split p q n).links = s.links.insertLast q p := by
    have noNext := (linked.links.outside q outside).1
    simp only [split, Links.insertLast, last, ← noNext, Function.update_eq_self]
  refine ⟨?_, ?_, ?_⟩
  · rw [links]
    exact linked.links.insertLast outside
  · simp [split, last]
  · rw [append_cons]
    exact (linked.blocks.cons q).trans (perm_append_singleton q _).symm

theorem absorb_linked (linked : s.Linked (xs ++ p :: q :: ys)) :
    (s.absorb p q).Linked (xs ++ p :: ys) := by
  have list := linked.links
  rw [append_cons] at list
  obtain ⟨before, next⟩ := list.around
  rw [getLast?_concat] at before
  have links : (s.absorb p q).links = s.links.unlink q := by
    simp only [absorb, Links.unlink, before]
    cases s.links.next q <;> rfl
  refine ⟨?_, ?_, ?_⟩
  · rw [links, append_cons]
    exact list.unlink
  · rw [absorb, next]
    cases ys with
    | nil => simp
    | cons r ys => simp [linked.tail, getLast?_append, getLast?_cons]
  · have perm := linked.blocks.erase q
    rw [append_cons, erase_append_right] at perm
    · rw [append_cons]
      simpa [absorb] using perm
    · have nodup := list.nodup
      rw [nodup_middle, nodup_cons, mem_append, not_or] at nodup
      exact nodup.1.1

end Operations

end VBox.Storage.Vci.BlkMap
