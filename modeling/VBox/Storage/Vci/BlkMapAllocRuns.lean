import VBox.Storage.Vci.BlkMapAllocRanges

/-!
Runs of allocations in the block map of the VCI cache.

The ranges stay in order as long as an allocation takes an exact fit whose start the
caller's variable has already, or cuts the last range (`Regular`). The counters are those
of all allocations there have been, with metadata and data exchanged, which makes them
right only by accident (`Counted.right_iff`).
-/

namespace VBox.Storage.Vci

open VBox.Lib List Option

/-- What the caller knows of an allocation. -/
def Allocation.place (a : Allocation) : Nat × Nat := (a.offBlockAddr, a.cBlocks)

namespace BlkMapRun

variable {s t : BlkMapRun} {cBlocks : UInt64} {l : List Nat} {label : BlkMapLabel}

/-- The descriptors `l` form a list in order, whose ranges in use are the live allocations. -/
structure InOrder (s : BlkMapRun) (cBlocks : UInt64) (l : List Nat) : Prop where
  linked : s.map.Linked l
  tiled : Tiled (l.map s.map.desc) cBlocks.toNat
  chain : (l.map s.map.desc).IsChain VciBlkRangeDesc.NotBothFree
  live : (s.live.map Allocation.place).Perm (allocatedOf (l.map s.map.desc))
  positive : ∀ a ∈ s.live, 0 < a.cBlocks

/-- What an allocation may meet: no range that is large enough, no memory for a split, an
exact fit at the address the caller has already, or the last range. -/
def Regular (s : BlkMapRun) : BlkMapLabel → Prop
  | .alloc n _ poffBlockAddr pFree =>
      ∀ p, s.map.smallest n.toNat = some p →
        (n.toNat < (s.map.desc p).cBlocks ∧ pFree = none) ∨
        0 < n.toNat ∧
          ((s.map.desc p).cBlocks = n.toNat ∧ (s.map.desc p).offAddrStart = poffBlockAddr ∨
            n.toNat < (s.map.desc p).cBlocks ∧ s.map.order.getLast? = some p)
  | .free _ => True

/-- A call that succeeds gives its caller the start of a range that was free. -/
def Serves (s : BlkMapRun) (label : BlkMapLabel) (t : BlkMapRun) : Prop :=
  match label with
  | .alloc n fFlags _ _ => t.live = s.live ∨
      ∃ r ∈ s.map.ranges, r.fFree = true ∧ n.toNat ≤ r.cBlocks ∧
        t.live = ⟨r.offAddrStart, n.toNat, fFlags⟩ :: s.live
  | .free _ => True

theorem created_inOrder (p : Nat) : (created cBlocks p).InOrder cBlocks [p] := by
  refine ⟨BlkMap.vciBlkMapCreate_linked cBlocks, ⟨⟨rfl, Nat.zero_add _⟩, ?_⟩, ?_, ?_, ?_⟩
  · exact pairwise_singleton _ _
  · exact isChain_singleton _
  · exact .refl _
  · intro a member
    cases member

/-- The ranges after a range `p` has gone to a new allocation. -/
theorem InOrder.allocated {a : Allocation} {map : BlkMap} {xs ys : List VciBlkRangeDesc}
    {l' : List Nat} (order : s.InOrder cBlocks l) (linked : map.Linked l')
    (tiled : Tiled (l'.map map.desc) cBlocks.toNat)
    (chain : (l'.map map.desc).IsChain VciBlkRangeDesc.NotBothFree)
    (before : allocatedOf (l.map s.map.desc) = allocatedOf xs ++ allocatedOf ys)
    (after : allocatedOf (l'.map map.desc) = allocatedOf xs ++ a.place :: allocatedOf ys)
    (pos : 0 < a.cBlocks) : (s.allocated map .success a).InOrder cBlocks l' := by
  refine ⟨linked, tiled, chain, ?_, ?_⟩
  · have live := order.live
    rw [before] at live
    show (a.place :: s.live.map Allocation.place).Perm _
    rw [show (s.allocated map .success a).map = map from rfl, after]
    exact (live.cons a.place).trans perm_middle.symm
  · exact forall_mem_cons.mpr ⟨pos, order.positive⟩

/-- The search of an allocation ends. -/
theorem InOrder.searches (order : s.InOrder cBlocks l) {n poffBlockAddr : Nat} {fFlags : UInt32}
    {pFree : Option Nat} : ∃ result,
      s.map.vciBlkMapAllocate n fFlags poffBlockAddr pFree = some result := by
  rw [BlkMap.vciBlkMapAllocate, order.linked.searchBestFit]
  exact ⟨_, rfl⟩

/-- A regular allocation keeps the ranges in order. -/
theorem InOrder.alloc {n fFlags : UInt32} {poffBlockAddr off : Nat} {pFree : Option Nat}
    {map : BlkMap} {rc : AllocRc} (order : s.InOrder cBlocks l)
    (regular : s.Regular (.alloc n fFlags poffBlockAddr pFree))
    (fresh : ∀ p, pFree = some p → p ∉ s.map.blocks)
    (returns : s.map.vciBlkMapAllocate n.toNat fFlags poffBlockAddr pFree = some (map, rc, off)) :
    (∃ l', (s.allocated map rc ⟨off, n.toNat, fFlags⟩).InOrder cBlocks l') ∧
      s.Serves (.alloc n fFlags poffBlockAddr pFree)
        (s.allocated map rc ⟨off, n.toNat, fFlags⟩) := by
  have unchanged {rc : AllocRc} (failed : rc ≠ .success) (a : Allocation) :
      s.allocated s.map rc a = s := by
    rw [BlkMapRun.allocated, if_neg failed]
  rw [BlkMap.vciBlkMapAllocate, order.linked.searchBestFit, map_some, some.injEq] at returns
  cases found : s.map.smallest n.toNat with
  | none =>
    rw [found] at returns
    simp only [Prod.mk.injEq] at returns
    obtain ⟨rfl, rfl, rfl⟩ := returns
    rw [unchanged (by decide)]
    exact ⟨⟨l, order⟩, .inl rfl⟩
  | some p =>
    rw [found] at returns
    obtain ⟨member, free, enough⟩ := order.linked.smallest_spec found
    have inRanges : s.map.desc p ∈ s.map.ranges := by
      rw [BlkMap.ranges, order.linked.order_eq]
      exact List.mem_map_of_mem member
    obtain ⟨xs, ys, rfl⟩ := append_of_mem member
    obtain ⟨notXs, notYs⟩ := order.linked.notMem
    have tiled := order.tiled
    have chain := order.chain
    rw [map_append, map_cons] at tiled chain
    have before : allocatedOf ((xs ++ p :: ys).map s.map.desc) =
        allocatedOf (xs.map s.map.desc) ++ allocatedOf (ys.map s.map.desc) := by
      rw [map_append, map_cons, allocatedOf_append, allocatedOf_free free]
    rcases regular p found with ⟨larger, noMemory⟩ | ⟨pos, ⟨exact, start⟩ | ⟨larger, last⟩⟩
    · simp only [larger, if_true, noMemory, Prod.mk.injEq] at returns
      obtain ⟨rfl, rfl, rfl⟩ := returns
      rw [unchanged (by decide)]
      exact ⟨⟨_, order⟩, .inl rfl⟩
    · simp only [exact, lt_irrefl, if_false, Prod.mk.injEq] at returns
      obtain ⟨rfl, rfl, rfl⟩ := returns
      have sameXs : xs.map (s.map.setFree p false).desc = xs.map s.map.desc :=
        BlkMap.map_update notXs
      have sameYs : ys.map (s.map.setFree p false).desc = ys.map s.map.desc :=
        BlkMap.map_update notYs
      have here : (s.map.setFree p false).desc p = { s.map.desc p with fFree := false } :=
        Function.update_self ..
      refine ⟨⟨xs ++ p :: ys, order.allocated
        (BlkMap.countAllocated_linked (BlkMap.setFree_linked order.linked)) ?_ ?_ before ?_ pos⟩,
        .inr ⟨_, inRanges, free, enough, ?_⟩⟩
      · rw [BlkMap.countAllocated_desc, map_append, map_cons, sameXs, sameYs, here]
        exact tiled.replace rfl rfl
      · rw [BlkMap.countAllocated_desc, map_append, map_cons, sameXs, sameYs, here]
        exact chain_replace chain rfl
      · rw [BlkMap.countAllocated_desc, map_append, map_cons, sameXs, sameYs, here,
          allocatedOf_append, allocatedOf_taken rfl, Allocation.place, start, exact]
      · rw [start]
        rfl
    · rw [order.linked.order_eq] at last
      obtain rfl : ys = [] := by
        cases ys with
        | nil => rfl
        | cons q ys =>
          rw [getLast?_append, getLast?_cons_cons, getLast?_cons, some_or, some.injEq] at last
          rw [← last] at notYs
          exact absurd (mem_of_getLast? getLast?_cons) notYs
      cases pFree with
      | none =>
        simp only [larger, if_true, Prod.mk.injEq] at returns
        obtain ⟨rfl, rfl, rfl⟩ := returns
        rw [unchanged (by decide)]
        exact ⟨⟨_, order⟩, .inl rfl⟩
      | some q =>
        simp only [larger, if_true, Prod.mk.injEq] at returns
        obtain ⟨rfl, rfl, rfl⟩ := returns
        have notBlocks := fresh q rfl
        have outside : q ∉ xs ++ [p] := fun member =>
          notBlocks (order.linked.blocks.mem_iff.mpr member)
        have notQ : q ∉ xs := fun member => outside (mem_append_left _ member)
        have other : p ≠ q := fun same => outside (by simp [same])
        have split : (xs ++ [p, q]).map (s.map.split p q n.toNat).desc =
            xs.map s.map.desc ++ [⟨(s.map.desc p).offAddrStart, n.toNat, false⟩,
              ⟨(s.map.desc p).offAddrStart + n.toNat, (s.map.desc p).cBlocks - n.toNat,
                true⟩] := by
          rw [map_append, BlkMap.split, BlkMap.map_update notQ, BlkMap.map_update notXs]
          simp [Function.update_of_ne other]
        refine ⟨⟨xs ++ [p, q], order.allocated
          (BlkMap.countAllocated_linked (BlkMap.split_linked order.linked notBlocks)) ?_ ?_
          before ?_ pos⟩, .inr ⟨_, inRanges, free, enough, rfl⟩⟩
        · rw [BlkMap.countAllocated_desc, split]
          exact tiled.split pos larger.le
        · rw [BlkMap.countAllocated_desc, split]
          rw [isChain_append] at chain
          exact isChain_append.mpr ⟨chain.1, by simp [VciBlkRangeDesc.NotBothFree],
            fun a _ b here => by
              obtain rfl := some.inj here
              simp [VciBlkRangeDesc.NotBothFree]⟩
        · rw [BlkMap.countAllocated_desc, split, allocatedOf_append]
          rfl

/-- Freeing a live allocation keeps the ranges in order, and returns. -/
theorem InOrder.free {a : Allocation} (order : s.InOrder cBlocks l) (live : a ∈ s.live)
    (fuel : Nat) :
    ∃ map l', s.map.vciBlkMapFree (fuel + 1) a.offBlockAddr a.cBlocks a.fFlags = some map ∧
      ({ s with map := map, live := s.live.erase a } : BlkMapRun).InOrder cBlocks l' := by
  have listed : a.place ∈ allocatedOf (l.map s.map.desc) :=
    order.live.mem_iff.mp (List.mem_map_of_mem live)
  simp only [allocatedOf, List.mem_map, mem_filter, Bool.not_eq_true', Allocation.place,
    Prod.mk.injEq] at listed
  obtain ⟨r, ⟨⟨p, member, rfl⟩, taken⟩, start, size⟩ := listed
  obtain ⟨xs, ys, rfl⟩ := append_of_mem member
  have pos := order.positive a live
  rw [← size] at pos
  obtain ⟨map, l', done, linked, tiled, chain, allocated⟩ :=
    BlkMap.freeLoop_range order.linked order.tiled order.chain pos
  refine ⟨map.countFreed 0 a.fFlags, l', ?_, BlkMap.countFreed_linked linked, ?_, ?_, ?_,
    fun b member => order.positive b (mem_of_mem_erase member)⟩
  · rw [BlkMap.vciBlkMapFree, ← start, ← size, done]
    rfl
  · rw [BlkMap.countFreed_desc]
    exact tiled
  · rw [BlkMap.countFreed_desc]
    exact chain
  · rw [BlkMap.countFreed_desc, allocated]
    have places := order.live
    rw [map_append, map_cons, allocatedOf_append, allocatedOf_taken taken, start, size] at places
    exact (((perm_cons_erase live).map _).symm.trans (places.trans perm_middle)).cons_inv

/-- A step that is regular keeps the ranges in order. -/
theorem InOrder.step (order : s.InOrder cBlocks l) (regular : s.Regular label)
    (step : BlkMapStep s label t) : (∃ l', t.InOrder cBlocks l') ∧ s.Serves label t := by
  cases step with
  | alloc fresh returns => exact order.alloc regular fresh returns
  | @free a fuel map live returns =>
    refine ⟨?_, trivial⟩
    cases fuel with
    | zero =>
      obtain ⟨k, size⟩ := Nat.exists_eq_add_one.mpr (order.positive a live)
      rw [BlkMap.vciBlkMapFree, size] at returns
      cases returns
    | succ fuel =>
      obtain ⟨map', l', done, order'⟩ := order.free live fuel
      obtain rfl := some.inj (returns.symm.trans done)
      exact ⟨l', order'⟩

/-- The label can be taken: memory that is not in use, an allocation that is live. -/
def Possible (s : BlkMapRun) : BlkMapLabel → Prop
  | .alloc _ _ _ pFree => ∀ p, pFree = some p → p ∉ s.map.blocks
  | .free a => a ∈ s.live

/-- Every call returns. -/
theorem InOrder.returns (order : s.InOrder cBlocks l) (possible : s.Possible label) :
    ∃ t, BlkMapStep s label t := by
  cases label with
  | alloc n fFlags poffBlockAddr pFree =>
    obtain ⟨⟨map, rc, off⟩, done⟩ := order.searches (n := n.toNat)
    exact ⟨_, .alloc possible done⟩
  | free a =>
    obtain ⟨map, l', done, -⟩ := order.free possible 0
    exact ⟨_, .free possible done⟩

end BlkMapRun

/-- The blocks of the allocations of a kind. -/
def totalOf (isData : Bool) (as : List Allocation) : Nat :=
  ((as.filter fun a => a.isData == isData).map Allocation.cBlocks).sum

theorem totalOf_cons (isData : Bool) (a : Allocation) (as : List Allocation) :
    totalOf isData (a :: as) =
      (if a.isData = isData then a.cBlocks else 0) + totalOf isData as := by
  unfold totalOf
  by_cases same : a.isData = isData <;> simp [same]

theorem totalOf_add (as : List Allocation) :
    totalOf true as + totalOf false as = (as.map Allocation.cBlocks).sum := by
  induction as with
  | nil => rfl
  | cons a as ih =>
    rw [totalOf_cons, totalOf_cons, map_cons, sum_cons, ← ih]
    cases a.isData <;> simp <;> omega

namespace BlkMap

variable {s s' : BlkMap}

/-- The counters are the same. -/
def SameCounters (s s' : BlkMap) : Prop :=
  s'.cBlocksAllocMeta = s.cBlocksAllocMeta ∧ s'.cBlocksAllocData = s.cBlocksAllocData ∧
    s'.cBlocksFree = s.cBlocksFree

theorem mergeLeft_counters (p : Nat) : s.SameCounters (s.mergeLeft p).1 := by
  unfold mergeLeft
  split
  · split <;> exact ⟨rfl, rfl, rfl⟩
  · exact ⟨rfl, rfl, rfl⟩

theorem mergeRight_counters (p : Nat) : s.SameCounters (s.mergeRight p) := by
  unfold mergeRight
  split
  · split <;> exact ⟨rfl, rfl, rfl⟩
  · exact ⟨rfl, rfl, rfl⟩

theorem SameCounters.trans {t : BlkMap} (first : s.SameCounters s') (second : s'.SameCounters t) :
    s.SameCounters t :=
  ⟨second.1.trans first.1, second.2.1.trans first.2.1, second.2.2.trans first.2.2⟩

/-- The loop ends with no blocks left, so that the counters are given none. -/
theorem freeLoop_counters {fuel off c rest : Nat} (done : freeLoop fuel s off c = some (s', rest)) :
    rest = 0 ∧ s.SameCounters s' := by
  induction fuel generalizing s off c with
  | zero =>
    cases c with
    | zero =>
      obtain ⟨rfl, rfl⟩ := Prod.mk.inj (some.inj done)
      exact ⟨rfl, rfl, rfl, rfl⟩
    | succ c => cases done
  | succ fuel ih =>
    cases c with
    | zero =>
      obtain ⟨rfl, rfl⟩ := Prod.mk.inj (some.inj done)
      exact ⟨rfl, rfl, rfl, rfl⟩
    | succ c =>
      rw [freeLoop] at done
      split at done
      · rename_i p found
        dsimp only at done
        split at done
        · obtain ⟨none, same⟩ := ih done
          refine ⟨none, SameCounters.trans ?_ same⟩
          exact (mergeLeft_counters (s := s.setFree p true) p).trans (mergeRight_counters _)
        · exact ih done
      · cases done

end BlkMap

namespace BlkMapRun

variable {s t : BlkMapRun} {cBlocks : UInt64} {label : BlkMapLabel}

/-- The counters have every allocation there has been, each kind in the place of the
other. -/
structure Counted (s : BlkMapRun) (cBlocks : UInt64) : Prop where
  allocMeta : s.map.cBlocksAllocMeta = UInt64.ofNat (totalOf true s.ever)
  allocData : s.map.cBlocksAllocData = UInt64.ofNat (totalOf false s.ever)
  blocksFree : s.map.cBlocksFree + UInt64.ofNat (totalOf true s.ever + totalOf false s.ever) =
    cBlocks

theorem created_counted (p : Nat) : (created cBlocks p).Counted cBlocks :=
  ⟨rfl, rfl, UInt64.add_zero cBlocks⟩

theorem Counted.alloc (counted : s.Counted cBlocks) (a : Allocation) {map : BlkMap}
    (same : s.map.SameCounters map) :
    (s.allocated (map.countAllocated a.cBlocks a.fFlags) .success a).Counted cBlocks := by
  obtain ⟨sameMeta, sameData, sameFree⟩ := same
  obtain ⟨allocMeta, allocData, blocksFree⟩ := counted
  have total : totalOf true (a :: s.ever) + totalOf false (a :: s.ever) =
      a.cBlocks + (totalOf true s.ever + totalOf false s.ever) := by
    rw [totalOf_add, totalOf_add]
    rfl
  have free : map.cBlocksFree - UInt64.ofNat a.cBlocks +
      UInt64.ofNat (totalOf true (a :: s.ever) + totalOf false (a :: s.ever)) = cBlocks := by
    rw [total, UInt64.ofNat_add, ← UInt64.add_assoc, UInt64.sub_add_cancel, sameFree, blocksFree]
  cases kind : a.isData with
  | false =>
    have flags : ¬ a.fFlags &&& vciBlkMapAllocMask = vciBlkMapAllocData := by
      simpa [Allocation.isData] using kind
    refine ⟨?_, ?_, ?_⟩ <;> simp only [allocated, if_true, BlkMap.countAllocated, if_neg flags]
    · rw [totalOf_cons, kind, if_neg (by decide), Nat.zero_add, sameMeta, allocMeta]
    · rw [totalOf_cons, kind, if_pos rfl, sameData, allocData, UInt64.ofNat_add, UInt64.add_comm]
    · exact free
  | true =>
    have flags : a.fFlags &&& vciBlkMapAllocMask = vciBlkMapAllocData := by
      simpa [Allocation.isData] using kind
    refine ⟨?_, ?_, ?_⟩ <;> simp only [allocated, if_true, BlkMap.countAllocated, if_pos flags]
    · rw [totalOf_cons, kind, if_pos rfl, sameMeta, allocMeta, UInt64.ofNat_add, UInt64.add_comm]
    · rw [totalOf_cons, kind, if_neg (by decide), Nat.zero_add, sameData, allocData]
    · exact free

/-- Every step keeps the counters what they are; a free gives nothing back. -/
theorem Counted.step (counted : s.Counted cBlocks) (step : BlkMapStep s label t) :
    t.Counted cBlocks := by
  cases step with
  | @alloc n fFlags poffBlockAddr off pFree map rc fresh returns =>
    rw [BlkMap.vciBlkMapAllocate, map_eq_some_iff] at returns
    obtain ⟨pBestFit, -, returns⟩ := returns
    have unchanged {rc : AllocRc} (failed : rc ≠ .success) (a : Allocation) :
        (s.allocated s.map rc a).Counted cBlocks := by
      rw [allocated, if_neg failed]
      exact counted
    split at returns
    · simp only [Prod.mk.injEq] at returns
      obtain ⟨rfl, rfl, rfl⟩ := returns
      exact unchanged (by decide) _
    · split at returns
      · split at returns <;> simp only [Prod.mk.injEq] at returns <;>
          obtain ⟨rfl, rfl, rfl⟩ := returns
        · exact counted.alloc ⟨_, n.toNat, fFlags⟩ ⟨rfl, rfl, rfl⟩
        · exact unchanged (by decide) _
      · simp only [Prod.mk.injEq] at returns
        obtain ⟨rfl, rfl, rfl⟩ := returns
        exact counted.alloc ⟨_, n.toNat, fFlags⟩ ⟨rfl, rfl, rfl⟩
  | @free a fuel map live returns =>
    rw [BlkMap.vciBlkMapFree, map_eq_some_iff] at returns
    obtain ⟨⟨left, rest⟩, done, rfl⟩ := returns
    obtain ⟨rfl, sameMeta, sameData, sameFree⟩ := BlkMap.freeLoop_counters done
    obtain ⟨allocMeta, allocData, blocksFree⟩ := counted
    refine ⟨?_, ?_, ?_⟩
    · refine Eq.trans ?_ allocMeta
      rw [← sameMeta]
      simp only [BlkMap.countFreed]
      split <;> simp
    · refine Eq.trans ?_ allocData
      rw [← sameData]
      simp only [BlkMap.countFreed]
      split <;> simp
    · refine Eq.trans ?_ blocksFree
      rw [← sameFree]
      simp only [BlkMap.countFreed]
      split <;> simp

/-- The counters are the totals of the free, metadata and data blocks. -/
structure CountersRight (s : BlkMapRun) : Prop where
  blocksFree : s.map.cBlocksFree = UInt64.ofNat (blocksOf true s.map.ranges)
  allocMeta : s.map.cBlocksAllocMeta = UInt64.ofNat (totalOf false s.live)
  allocData : s.map.cBlocksAllocData = UInt64.ofNat (totalOf true s.live)

/-- All the data blocks there have ever been are as many as the metadata blocks now, and
the other way round. -/
def Balanced (s : BlkMapRun) : Prop :=
  totalOf true s.ever ≡ totalOf false s.live [MOD 2 ^ 64] ∧
    totalOf false s.ever ≡ totalOf true s.live [MOD 2 ^ 64]

theorem ofNat_eq_iff {a b : Nat} : UInt64.ofNat a = UInt64.ofNat b ↔ a ≡ b [MOD 2 ^ 64] := by
  rw [← UInt64.toNat_inj, UInt64.toNat_ofNat', UInt64.toNat_ofNat']
  rfl

theorem Counted.right_iff {l : List Nat} (counted : s.Counted cBlocks)
    (order : s.InOrder cBlocks l) : s.CountersRight ↔ s.Balanced := by
  constructor
  · rintro ⟨-, allocMeta, allocData⟩
    exact ⟨ofNat_eq_iff.mp (counted.allocMeta.symm.trans allocMeta),
      ofNat_eq_iff.mp (counted.allocData.symm.trans allocData)⟩
  · rintro ⟨evenMeta, evenData⟩
    refine ⟨?_, counted.allocMeta.trans (ofNat_eq_iff.mpr evenMeta),
      counted.allocData.trans (ofNat_eq_iff.mpr evenData)⟩
    have inUse : ((allocatedOf s.map.ranges).map Prod.snd).sum =
        totalOf true s.live + totalOf false s.live := by
      have perm := order.live.map Prod.snd
      rw [BlkMap.ranges, order.linked.order_eq, ← perm.sum_nat, totalOf_add, List.map_map]
      rfl
    have gapFree : GapFree 0 s.map.ranges cBlocks.toNat := by
      rw [BlkMap.ranges, order.linked.order_eq]
      exact order.tiled.gapFree
    have all := gapFree.blocks
    rw [inUse, Nat.add_zero] at all
    have ever : UInt64.ofNat (totalOf true s.ever + totalOf false s.ever) =
        UInt64.ofNat (totalOf true s.live + totalOf false s.live) := by
      rw [ofNat_eq_iff, Nat.add_comm (totalOf true s.live)]
      exact evenMeta.add evenData
    rw [← UInt64.add_left_inj (UInt64.ofNat (totalOf true s.live + totalOf false s.live)), ← ever,
      counted.blocksFree, ever, ← UInt64.ofNat_add, all, UInt64.ofNat_toNat]

/-- The list from `pRangesHead` is sorted, without gaps and linked both ways, no two
neighbours are free, and the ranges in use are the live allocations, which do not overlap. -/
structure MapOk (s : BlkMapRun) (cBlocks : UInt64) : Prop where
  links : s.map.links.Represents s.map.order
  tail : s.map.pRangesTail = s.map.order.getLast?
  sorted : s.map.ranges.Pairwise fun a b => a.offAddrStart < b.offAddrStart
  gapFree : GapFree 0 s.map.ranges cBlocks.toNat
  chain : s.map.ranges.IsChain VciBlkRangeDesc.NotBothFree
  live : (s.live.map Allocation.place).Perm (allocatedOf s.map.ranges)
  apart : s.live.Pairwise fun a b => a.offBlockAddr + a.cBlocks ≤ b.offBlockAddr ∨
    b.offBlockAddr + b.cBlocks ≤ a.offBlockAddr

theorem InOrder.mapOk {l : List Nat} (order : s.InOrder cBlocks l) : s.MapOk cBlocks := by
  have ranges : l.map s.map.desc = s.map.ranges := by
    rw [BlkMap.ranges, order.linked.order_eq]
  obtain ⟨linked, tiled, chain, live, -⟩ := order
  rw [ranges] at tiled chain live
  refine ⟨?_, ?_, tiled.sorted, tiled.gapFree, chain, live, ?_⟩
  · rw [linked.order_eq]
    exact linked.links
  · rw [linked.order_eq]
    exact linked.tail
  · have places : (allocatedOf s.map.ranges).Pairwise fun x y =>
        x.1 + x.2 ≤ y.1 ∨ y.1 + y.2 ≤ x.1 := by
      rw [allocatedOf, pairwise_map]
      exact (tiled.gapFree.apart.filter _).imp Or.inl
    rw [← live.pairwise_iff fun {x y} either => either.symm, pairwise_map] at places
    exact places

/-- Runs of regular steps: the map is in order, the counters are right exactly when they
balance, and every regular call returns and serves its caller. -/
theorem blkMap_regular_runs {pFree : Nat} {labels : List BlkMapLabel}
    (run : Run (Guarded Regular BlkMapStep) (created cBlocks pFree) labels t) :
    t.MapOk cBlocks ∧ (t.CountersRight ↔ t.Balanced) ∧
      ∀ label, t.Possible label → (∃ u, BlkMapStep t label u) ∧
        ∀ u, t.Regular label → BlkMapStep t label u → t.Serves label u := by
  have reached := run.invariant (fun s => (∃ l, s.InOrder cBlocks l) ∧ s.Counted cBlocks)
    (fun {s label u} inv step => by
      obtain ⟨⟨l, order⟩, counted⟩ := inv
      exact ⟨(order.step step.1 step.2).1, counted.step step.2⟩)
    ⟨⟨_, created_inOrder pFree⟩, created_counted pFree⟩
  obtain ⟨⟨l, order⟩, counted⟩ := reached
  exact ⟨order.mapOk, counted.right_iff order, fun label possible =>
    ⟨order.returns possible, fun u regular step => (order.step regular step).2⟩⟩

/-- Four metadata blocks from the front of a map of 16. -/
def fourMeta : BlkMapLabel := .alloc 4 vciBlkMapAllocMeta 0 (some 1)

theorem fourMeta_run : ∃ t, Run (Guarded Regular BlkMapStep) (created 16 0) [fourMeta] t ∧
    t.live = [⟨0, 4, vciBlkMapAllocMeta⟩] ∧ t.ever = t.live := by
  refine ⟨_, .single ⟨fun p found => ?_, .alloc (fun p same => ?_) rfl⟩, rfl, rfl⟩
  · obtain rfl : 0 = p := some.inj found
    exact .inr ⟨by decide, .inr ⟨by decide, rfl⟩⟩
  · obtain rfl := some.inj same
    decide

theorem blkMap_regular_runs_four : ∃ t,
    Run (Guarded Regular BlkMapStep) (created 16 0) [fourMeta] t ∧ t.MapOk 16 ∧
      (t.CountersRight ↔ t.Balanced) := by
  obtain ⟨t, run, -⟩ := fourMeta_run
  obtain ⟨mapOk, counters, -⟩ := blkMap_regular_runs run
  exact ⟨t, run, mapOk, counters⟩

/-- An exact fit leaves the caller with the start it came with, a split in the middle leaves
a back link on the wrong range, and the first allocation spoils the counters. -/
theorem blkMap_fails :
    (∃ t, BlkMapStep (created 8 0) (.alloc 8 vciBlkMapAllocMeta 77 none) t ∧ ¬ t.MapOk 8) ∧
    (∃ t, Run BlkMapStep (created 16 0)
      [fourMeta, .alloc 4 vciBlkMapAllocMeta 0 (some 2), .free ⟨0, 4, vciBlkMapAllocMeta⟩,
        .alloc 2 vciBlkMapAllocMeta 0 (some 3)] t ∧ ¬ t.MapOk 16) ∧
    ∃ t, BlkMapStep (created 16 0) fourMeta t ∧ ¬ t.CountersRight := by
  refine ⟨⟨_, .alloc (fun p same => by cases same) rfl, fun ok => ?_⟩,
    ⟨_, .next (.alloc (fun p same => ?_) rfl) (.next (.alloc (fun p same => ?_) rfl)
      (.next (@BlkMapStep.free _ _ 1 _ (by decide) rfl) (.single (.alloc (fun p same => ?_) rfl)))),
      fun ok => ?_⟩, ⟨_, .alloc (fun p same => ?_) rfl, fun right => ?_⟩⟩
  · have live := ok.live
    revert live
    decide
  · obtain rfl := some.inj same
    decide
  · obtain rfl := some.inj same
    decide
  · obtain rfl := some.inj same
    decide
  · have back := ok.links.segment.2.2.2.2.1
    cases back
  · obtain rfl := some.inj same
    decide
  · cases right.allocData

end BlkMapRun

end VBox.Storage.Vci
