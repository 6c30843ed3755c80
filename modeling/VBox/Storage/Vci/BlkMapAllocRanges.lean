import VBox.Storage.Vci.BlkMapAllocLinks

/-!
The ranges of the block map under allocation and freeing.

`Tiled` and the chain of ranges that are not both free are about the values of the
descriptors; the merging of `vciBlkMapFree` is taken to them by `Parted`, the state
between the release of a range and the merging with its neighbours (`freeLoop_range`).
-/

namespace VBox.Storage.Vci

open VBox.Lib List Option Function

/-- The ranges lie one behind the other, each at an address of its own. -/
structure Tiled (ranges : List VciBlkRangeDesc) (stop : Nat) : Prop where
  gapFree : GapFree 0 ranges stop
  sorted : ranges.Pairwise fun a b => a.offAddrStart < b.offAddrStart

/-- Start and length of the ranges that are not free. -/
def allocatedOf (ranges : List VciBlkRangeDesc) : List (Nat × Nat) :=
  (ranges.filter fun r => !r.fFree).map fun r => (r.offAddrStart, r.cBlocks)

section Ranges

variable {xs ys ranges : List VciBlkRangeDesc} {r r' a b : VciBlkRangeDesc} {off stop n : Nat}

theorem allocatedOf_append : allocatedOf (xs ++ ys) = allocatedOf xs ++ allocatedOf ys := by
  simp [allocatedOf]

theorem allocatedOf_free (free : r.fFree = true) : allocatedOf (r :: ys) = allocatedOf ys := by
  simp [allocatedOf, free]

theorem allocatedOf_taken (taken : r.fFree = false) :
    allocatedOf (r :: ys) = (r.offAddrStart, r.cBlocks) :: allocatedOf ys := by
  simp [allocatedOf, taken]

/-- The same place, whatever its kind. -/
theorem Tiled.replace (tiled : Tiled (xs ++ r :: ys) stop)
    (start : r'.offAddrStart = r.offAddrStart) (blocks : r'.cBlocks = r.cBlocks) :
    Tiled (xs ++ r' :: ys) stop := by
  obtain ⟨gapFree, sorted⟩ := tiled
  refine ⟨?_, ?_⟩
  · obtain ⟨mid, front, here, back⟩ := gapFree_append.mp gapFree
    exact gapFree_append.mpr ⟨mid, front, start.trans here, by rwa [blocks]⟩
  · rw [pairwise_append, pairwise_cons] at sorted ⊢
    simpa only [forall_mem_cons, start] using sorted

theorem Tiled.absorb (tiled : Tiled (xs ++ a :: b :: ys) stop) :
    Tiled (xs ++ { a with cBlocks := a.cBlocks + b.cBlocks } :: ys) stop := by
  obtain ⟨gapFree, sorted⟩ := tiled
  refine ⟨?_, ?_⟩
  · obtain ⟨mid, front, here, -, back⟩ := gapFree_append.mp gapFree
    exact gapFree_append.mpr ⟨mid, front, here, by rwa [← Nat.add_assoc]⟩
  · have kept := sorted.sublist (Sublist.append_left ((sublist_cons_self b ys).cons_cons a) xs)
    rw [pairwise_append, pairwise_cons] at kept ⊢
    simpa only [forall_mem_cons] using kept

theorem Tiled.split {first second : Bool} (tiled : Tiled (xs ++ [r]) stop) (pos : 0 < n)
    (short : n ≤ r.cBlocks) :
    Tiled (xs ++ [⟨r.offAddrStart, n, first⟩, ⟨r.offAddrStart + n, r.cBlocks - n, second⟩])
      stop := by
  obtain ⟨gapFree, sorted⟩ := tiled
  refine ⟨?_, ?_⟩
  · obtain ⟨mid, front, here, back⟩ := gapFree_append.mp gapFree
    refine gapFree_append.mpr ⟨mid, front, here, by rw [here], ?_⟩
    rw [Nat.add_assoc, Nat.add_sub_of_le short]
    exact back
  · rw [pairwise_append] at sorted ⊢
    obtain ⟨front, -, before⟩ := sorted
    refine ⟨front, by simpa using pos, fun x member y => ?_⟩
    have := before x member r mem_cons_self
    simp only [mem_cons, not_mem_nil, or_false]
    rintro (rfl | rfl)
    · exact this
    · exact Nat.lt_add_right n this

theorem chain_replace (chain : (xs ++ r :: ys).IsChain VciBlkRangeDesc.NotBothFree)
    (taken : r'.fFree = false) : (xs ++ r' :: ys).IsChain VciBlkRangeDesc.NotBothFree := by
  rw [isChain_append, isChain_cons] at chain ⊢
  obtain ⟨front, ⟨-, back⟩, -⟩ := chain
  refine ⟨front, ⟨fun b _ both => ?_, back⟩, fun a _ b here both => ?_⟩
  · rw [taken] at both
    cases both.1
  · obtain rfl := some.inj here
    rw [taken] at both
    cases both.2

theorem GapFree.le_start (gapFree : GapFree off ranges stop) :
    ∀ r ∈ ranges, off ≤ r.offAddrStart := by
  induction ranges generalizing off with
  | nil => simp
  | cons r ranges ih =>
    rintro x (_ | ⟨_, member⟩)
    · exact gapFree.1.ge
    · exact (Nat.le_add_right off r.cBlocks).trans (ih gapFree.2 x member)

/-- No two ranges have a block in common. -/
theorem GapFree.apart (gapFree : GapFree off ranges stop) :
    ranges.Pairwise fun a b => a.offAddrStart + a.cBlocks ≤ b.offAddrStart := by
  induction ranges generalizing off with
  | nil => exact .nil
  | cons r ranges ih =>
    obtain ⟨rfl, rest⟩ := gapFree
    exact pairwise_cons.mpr ⟨rest.le_start, ih rest⟩

/-- Every block is in a free range or in another. -/
theorem GapFree.blocks (gapFree : GapFree off ranges stop) :
    blocksOf true ranges + ((allocatedOf ranges).map Prod.snd).sum + off = stop := by
  induction ranges generalizing off with
  | nil => exact (Nat.zero_add off).trans gapFree
  | cons r ranges ih =>
    have rest := ih gapFree.2
    cases free : r.fFree with
    | true =>
      rw [allocatedOf_free free]
      simp only [blocksOf, filter_cons, free, beq_self_eq_true, if_true, map_cons,
        sum_cons] at rest ⊢
      omega
    | false =>
      rw [allocatedOf_taken free]
      simp only [blocksOf, filter_cons, free, beq_iff_eq, Bool.false_eq_true, if_false,
        map_cons, sum_cons] at rest ⊢
      omega

end Ranges

namespace BlkMap

variable {s : BlkMap} {l us ys : List Nat} {p q m n stop : Nat}

theorem map_update {v : VciBlkRangeDesc} {f : Nat → VciBlkRangeDesc} (absent : p ∉ l) :
    l.map (update f p v) = l.map f :=
  map_congr_left fun _ member => update_of_ne (ne_of_mem_of_not_mem member absent) ..

/-- The range `m` has become free, between ranges where no two neighbours are. -/
structure Parted (s : BlkMap) (stop : Nat) (us : List Nat) (m : Nat) (ys : List Nat) :
    Prop where
  linked : s.Linked (us ++ m :: ys)
  tiled : Tiled (us.map s.desc ++ s.desc m :: ys.map s.desc) stop
  free : (s.desc m).fFree = true
  left : (us.map s.desc).IsChain VciBlkRangeDesc.NotBothFree
  right : (ys.map s.desc).IsChain VciBlkRangeDesc.NotBothFree

/-- The last range in front is not free. -/
def TakenLast (s : BlkMap) (us : List Nat) : Prop := ∀ p ∈ us.getLast?, (s.desc p).fFree = false

def TakenFirst (s : BlkMap) (ys : List Nat) : Prop := ∀ p ∈ ys.head?, (s.desc p).fFree = false

theorem mergeLeft_spec (parted : s.Parted stop us m ys) :
    ∃ us', (s.mergeLeft m).1.Parted stop us' (s.mergeLeft m).2 ys ∧
      (s.mergeLeft m).1.TakenLast us' ∧
      allocatedOf (us'.map (s.mergeLeft m).1.desc) = allocatedOf (us.map s.desc) ∧
      ys.map (s.mergeLeft m).1.desc = ys.map s.desc := by
  have linked := parted.linked
  have before := linked.links.around.1
  rw [mergeLeft, before]
  rcases eq_nil_or_concat us with rfl | ⟨us, p, rfl⟩
  · exact ⟨[], parted, by simp [TakenLast], rfl, rfl⟩
  rw [concat_eq_append] at *
  rw [getLast?_concat]
  have left := parted.left
  rw [map_append, isChain_append] at left
  cases free : (s.desc p).fFree with
  | false =>
    simp only [free, Bool.false_eq_true, if_false]
    exact ⟨us ++ [p], parted, by simpa [TakenLast] using free, rfl, trivial⟩
  | true =>
    simp only [free, if_true]
    rw [append_assoc, singleton_append] at linked
    obtain ⟨notUs, notBack⟩ := linked.notMem
    have notYs : p ∉ ys := fun member => notBack (mem_cons_of_mem m member)
    have sameUs : us.map (s.absorb p m).desc = us.map s.desc := map_update notUs
    have sameYs : ys.map (s.absorb p m).desc = ys.map s.desc := map_update notYs
    have here : (s.absorb p m).desc p =
        { s.desc p with cBlocks := (s.desc p).cBlocks + (s.desc m).cBlocks } :=
      update_self ..
    refine ⟨us, ⟨absorb_linked linked, ?_, by rw [here]; exact free, ?_, ?_⟩, ?_, ?_, sameYs⟩
    · rw [sameUs, sameYs, here]
      have tiled := parted.tiled
      rw [map_append, append_assoc] at tiled
      exact Tiled.absorb tiled
    · rw [sameUs]
      exact left.1
    · rw [sameYs]
      exact parted.right
    · intro q last
      have member : q ∈ us := mem_of_getLast? last
      have other : q ≠ p := fun same => notUs (same ▸ member)
      rw [show (s.absorb p m).desc q = s.desc q from update_of_ne other ..]
      have notBoth := left.2.2 (s.desc q) (by simpa using ⟨q, last, rfl⟩) (s.desc p) rfl
      simpa [VciBlkRangeDesc.NotBothFree, free] using notBoth
    · rw [sameUs, map_append, allocatedOf_append, map_singleton, allocatedOf_free free]
      simp [allocatedOf]

theorem chain_around (left : (us.map s.desc).IsChain VciBlkRangeDesc.NotBothFree)
    (right : (ys.map s.desc).IsChain VciBlkRangeDesc.NotBothFree) (before : s.TakenLast us)
    (behind : s.TakenFirst ys) :
    (us.map s.desc ++ s.desc m :: ys.map s.desc).IsChain VciBlkRangeDesc.NotBothFree := by
  refine isChain_append.mpr ⟨left, isChain_cons.mpr ⟨?_, right⟩, ?_⟩
  · intro b first both
    simp only [head?_map, mem_def, map_eq_some_iff] at first
    obtain ⟨q, first, rfl⟩ := first
    rw [behind q first] at both
    cases both.2
  · intro a last b here both
    simp only [getLast?_map, mem_def, map_eq_some_iff] at last
    obtain ⟨q, last, rfl⟩ := last
    rw [before q last] at both
    cases both.1

theorem mergeRight_spec (parted : s.Parted stop us m ys) (taken : s.TakenLast us) :
    ∃ l, (s.mergeRight m).Linked l ∧ Tiled (l.map (s.mergeRight m).desc) stop ∧
      (l.map (s.mergeRight m).desc).IsChain VciBlkRangeDesc.NotBothFree ∧
      allocatedOf (l.map (s.mergeRight m).desc) =
        allocatedOf (us.map s.desc) ++ allocatedOf (ys.map s.desc) := by
  have linked := parted.linked
  obtain ⟨notUs, notYs⟩ := linked.notMem
  rw [mergeRight, linked.links.around.2]
  have unmerged (first : s.TakenFirst ys) : ∃ l, s.Linked l ∧ Tiled (l.map s.desc) stop ∧
      (l.map s.desc).IsChain VciBlkRangeDesc.NotBothFree ∧ allocatedOf (l.map s.desc) =
        allocatedOf (us.map s.desc) ++ allocatedOf (ys.map s.desc) := by
    refine ⟨us ++ m :: ys, linked, ?_⟩
    rw [map_append, map_cons]
    exact ⟨parted.tiled, chain_around parted.left parted.right taken first,
      by rw [allocatedOf_append, allocatedOf_free parted.free]⟩
  cases ys with
  | nil => exact unmerged (by simp [TakenFirst])
  | cons p ys =>
    rw [head?_cons]
    have right := parted.right
    rw [map_cons, isChain_cons] at right
    cases free : (s.desc p).fFree with
    | false =>
      simp only [free, Bool.false_eq_true, if_false]
      exact unmerged (by simpa [TakenFirst] using free)
    | true =>
      simp only [free, if_true]
      have notYs' : m ∉ ys := fun member => notYs (mem_cons_of_mem p member)
      have sameUs : us.map (s.absorb m p).desc = us.map s.desc := map_update notUs
      have sameYs : ys.map (s.absorb m p).desc = ys.map s.desc := map_update notYs'
      have same {q : Nat} (other : q ≠ m) : (s.absorb m p).desc q = s.desc q :=
        update_of_ne other ..
      have here : (s.absorb m p).desc m =
          { s.desc m with cBlocks := (s.desc m).cBlocks + (s.desc p).cBlocks } :=
        update_self ..
      refine ⟨us ++ m :: ys, absorb_linked linked, ?_⟩
      rw [map_append, map_cons]
      refine ⟨?_, chain_around ?_ ?_ ?_ ?_, ?_⟩
      · rw [sameUs, sameYs, here]
        exact Tiled.absorb parted.tiled
      · rw [sameUs]
        exact parted.left
      · rw [sameYs]
        exact right.2
      · intro q last
        rw [same (ne_of_mem_of_not_mem (mem_of_getLast? last) notUs)]
        exact taken q last
      · intro q first
        rw [same (ne_of_mem_of_not_mem (mem_of_head? first) notYs')]
        have notBoth := right.1 (s.desc q) (by simpa using ⟨q, first, rfl⟩)
        simpa [VciBlkRangeDesc.NotBothFree, free] using notBoth
      · have freeHere : ((s.absorb m p).desc m).fFree = true := by
          rw [here]
          exact parted.free
        rw [sameUs, sameYs, allocatedOf_append, allocatedOf_free freeHere, map_cons,
          allocatedOf_free free]

/-- Freeing the whole of a range takes one round. -/
theorem freeLoop_range {xs ys : List Nat} {fuel : Nat} (linked : s.Linked (xs ++ p :: ys))
    (tiled : Tiled ((xs ++ p :: ys).map s.desc) stop)
    (chain : ((xs ++ p :: ys).map s.desc).IsChain VciBlkRangeDesc.NotBothFree)
    (pos : 0 < (s.desc p).cBlocks) :
    ∃ s' l, freeLoop (fuel + 1) s (s.desc p).offAddrStart (s.desc p).cBlocks = some (s', 0) ∧
      s'.Linked l ∧ Tiled (l.map s'.desc) stop ∧
      (l.map s'.desc).IsChain VciBlkRangeDesc.NotBothFree ∧
      allocatedOf (l.map s'.desc) = allocatedOf (xs.map s.desc) ++ allocatedOf (ys.map s.desc) := by
  obtain ⟨notXs, notYs⟩ := linked.notMem
  rw [map_append, map_cons] at tiled chain
  have found : s.findByBlock (s.desc p).offAddrStart s.blocks.length s.links.head =
      some (some p) := by
    rw [linked.links.head]
    refine findByBlock_eq linked.links.segment (fun q member => ?_) rfl linked.blocks.length_eq.ge
    exact (pairwise_append.mp tiled.sorted).2.2 (s.desc q) (List.mem_map_of_mem member)
      (s.desc p) mem_cons_self
  have sameXs : xs.map (s.setFree p true).desc = xs.map s.desc := map_update notXs
  have sameYs : ys.map (s.setFree p true).desc = ys.map s.desc := map_update notYs
  have here : (s.setFree p true).desc p = { s.desc p with fFree := true } := update_self ..
  have parted : (s.setFree p true).Parted stop xs p ys := by
    rw [isChain_append, isChain_cons] at chain
    refine ⟨setFree_linked linked, ?_, by rw [here], ?_, ?_⟩
    · rw [sameXs, sameYs, here]
      exact tiled.replace rfl rfl
    · rw [sameXs]
      exact chain.1
    · rw [sameYs]
      exact chain.2.1.2
  obtain ⟨us, parted', taken, sameUs, sameYs'⟩ := mergeLeft_spec parted
  obtain ⟨l, linked', tiled', chain', allocated⟩ := mergeRight_spec parted' taken
  refine ⟨_, l, ?_, linked', tiled', chain', ?_⟩
  · obtain ⟨k, size⟩ := Nat.exists_eq_add_one.mpr pos
    rw [size, freeLoop, found]
    simp only [size, decide_true, le_refl, Bool.and_self, if_true, Nat.sub_self]
    cases fuel <;> rfl
  · rw [allocated, sameUs, sameYs', sameXs, sameYs]

end BlkMap

end VBox.Storage.Vci
