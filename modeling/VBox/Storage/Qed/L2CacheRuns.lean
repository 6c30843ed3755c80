import VBox.Storage.Qed.L2Cache
import VBox.Lib.Run
import Mathlib.Data.List.Nodup

/-!
What every state of the L2 table cache satisfies.

`Coherent` is the invariant: the two lists hold the same entries, the memory is counted, the
references are those the requests hold and the tables are those on the disk. All calls keep it, but
the search list stays sorted only where `InOrder` holds of the insertions: a new entry is put behind the
first one with a smaller offset, not behind the last one.
-/

namespace VBox.Storage.Qed

open VBox.Lib List Option Function

/-- The offset belongs in front of the second entry of the list. -/
def InOrder : List Nat → Nat → Prop
  | [], _ => True
  | [first], off => off ≠ first
  | first :: second :: _, off => off < first ∨ (first < off ∧ off < second)

/-- The invariant of the cache. -/
structure Coherent (s : CacheState) : Prop where
  sorted : (s.cache.listSearch.map s.cache.off).Pairwise (· < ·)
  perm : s.cache.listLru.Perm s.cache.listSearch
  nodup : s.cache.listSearch.Nodup
  fresh : s.fresh.Nodup
  apart : ∀ p ∈ s.fresh, p ∉ s.cache.listSearch
  heads : ∀ p, p ∈ s.cache.listSearch ∨ p ∈ s.fresh → p ≠ s.cache.dummySearch
  size : s.cache.cbL2Cache = s.cache.cbTable * (s.cache.listSearch.length + s.fresh.length)
  max : s.cache.cbL2Cache ≤ QED_L2_CACHE_MEMORY_MAX
  held : ∀ p ∈ s.held, p ∈ s.cache.listSearch
  refs : ∀ p ∈ s.cache.listSearch, (s.cache.entry p).cRefs = s.held.count p
  freshRefs : ∀ p ∈ s.fresh, (s.cache.entry p).cRefs = 1
  tables : ∀ p ∈ s.cache.listSearch, (s.cache.entry p).paL2Tbl = s.disk (s.cache.off p)

namespace L2Cache

theorem entry_setEntry (cache : L2Cache) (p : Nat) (entry : L2Entry) :
    (cache.setEntry p entry).entry p = entry := update_self ..

theorem entry_setEntry_of_ne (cache : L2Cache) {p q : Nat} (different : q ≠ p) (entry : L2Entry) :
    (cache.setEntry p entry).entry q = cache.entry q := update_of_ne different ..

/-- The loops over both lists end with the same pointer, since the image keeps the heads as
an entry keeps its nodes. -/
theorem dummyLru_eq (cache : L2Cache) : cache.dummyLru = cache.dummySearch := Nat.add_sub_cancel _ 16

/-- A search that ends with an entry found it, one that ends with the head found nothing. -/
theorem getD_find?_cases {list : List Nat} {test : Nat → Bool} {dummy : Nat}
    (heads : ∀ p ∈ list, p ≠ dummy) :
    (∃ p ∈ list, test p = true ∧ (list.find? test).getD dummy = p ∧ p ≠ dummy) ∨
      ((∀ p ∈ list, test p = false) ∧ (list.find? test).getD dummy = dummy) := by
  cases found : list.find? test with
  | none =>
    right
    rw [find?_eq_none] at found
    exact ⟨fun p member => Bool.not_eq_true _ ▸ found p member, rfl⟩
  | some p =>
    left
    have member := mem_of_find?_eq_some found
    exact ⟨p, member, find?_some found, rfl, heads p member⟩

end L2Cache

/-! ### Retain and release -/

section

variable {s : CacheState}

theorem Coherent.retain_eq_some (coherent : Coherent s) {off p : Nat} {cache : L2Cache}
    (found : s.cache.retain off = some (p, cache)) : p ∈ s.cache.listSearch ∧ s.cache.off p = off ∧
      cache = { s.cache with listLru := p :: s.cache.listLru.erase p }.setEntry p
        { s.cache.entry p with cRefs := (s.cache.entry p).cRefs + 1 } := by
  unfold L2Cache.retain at found
  simp only at found
  rcases L2Cache.getD_find?_cases (fun p member => coherent.heads p (.inl member)) with
    ⟨q, member, test, ended, entry⟩ | ⟨-, ended⟩
  · rw [ended, if_pos entry] at found
    obtain ⟨rfl, rfl⟩ := Prod.mk.inj (some.inj found)
    exact ⟨member, of_decide_eq_true test, rfl⟩
  · rw [ended, if_neg (not_not.mpr rfl)] at found
    cases found

/-- Changing the references of an entry on the lists leaves its offset and its table. -/
theorem Coherent.setRefs (coherent : Coherent s) {p cRefs : Nat} {listLru held : List Nat}
    (listed : p ∈ s.cache.listSearch) (perm : listLru.Perm s.cache.listSearch)
    (heldSub : ∀ q ∈ held, q ∈ s.cache.listSearch) (count : held.count p = cRefs)
    (others : ∀ q ≠ p, held.count q = s.held.count q) :
    Coherent { s with
      cache := { s.cache with listLru }.setEntry p { s.cache.entry p with cRefs }
      held } := by
  have offs : ∀ q, ({ s.cache with listLru }.setEntry p { s.cache.entry p with cRefs }).off q =
      s.cache.off q := by
    intro q
    unfold L2Cache.off
    by_cases same : q = p
    · rw [same, L2Cache.entry_setEntry]
    · rw [L2Cache.entry_setEntry_of_ne _ same]
  refine
    { sorted := ?_
      perm := perm
      nodup := coherent.nodup
      fresh := coherent.fresh
      apart := coherent.apart
      heads := coherent.heads
      size := coherent.size
      max := coherent.max
      held := heldSub
      refs := ?_
      freshRefs := ?_
      tables := ?_ }
  · show (s.cache.listSearch.map _).Pairwise _
    rw [map_congr_left fun q _ => offs q]
    exact coherent.sorted
  · intro q member
    by_cases same : q = p
    · rw [same, L2Cache.entry_setEntry]
      exact count.symm
    · rw [L2Cache.entry_setEntry_of_ne _ same]
      exact (coherent.refs q member).trans (others q same).symm
  · intro q member
    have different : q ≠ p := fun same => coherent.apart q member (same ▸ listed)
    rw [L2Cache.entry_setEntry_of_ne _ different]
    exact coherent.freshRefs q member
  · intro q member
    rw [offs]
    by_cases same : q = p
    · rw [same, L2Cache.entry_setEntry]
      exact coherent.tables p listed
    · rw [L2Cache.entry_setEntry_of_ne _ same]
      exact coherent.tables q member

/-- A table found in the cache is retained. -/
theorem Coherent.retained (coherent : Coherent s) {off p : Nat} {cache : L2Cache}
    (found : s.cache.retain off = some (p, cache)) :
    Coherent { s with cache, held := p :: s.held } := by
  obtain ⟨listed, -, rfl⟩ := coherent.retain_eq_some found
  have inLru : p ∈ s.cache.listLru := coherent.perm.mem_iff.mpr listed
  apply coherent.setRefs listed
  · exact (perm_cons_erase inLru).symm.trans coherent.perm
  · intro q member
    rcases mem_cons.mp member with rfl | earlier
    · exact listed
    · exact coherent.held q earlier
  · rw [count_cons_self, coherent.refs p listed]
  · intro q different
    exact count_cons_of_ne different.symm

theorem Coherent.release (coherent : Coherent s) {p : Nat} (holds : p ∈ s.held) :
    Coherent { s with cache := s.cache.release p, held := s.held.erase p } := by
  have listed := coherent.held p holds
  apply coherent.setRefs listed coherent.perm
  · intro q member
    exact coherent.held q (mem_of_mem_erase member)
  · rw [count_erase_self, coherent.refs p listed]
  · intro q different
    exact count_erase_of_ne different

/-! ### Entries handed out -/

/-- An entry is new, or it is one that no request uses. -/
theorem Coherent.alloc_eq_some (coherent : Coherent s) {mem : Option Nat} {p : Nat}
    {cache : L2Cache} (got : s.cache.alloc mem = some (p, cache)) :
    (s.cache.cbL2Cache + s.cache.cbTable ≤ QED_L2_CACHE_MEMORY_MAX ∧ mem = some p ∧
        cache = { s.cache with cbL2Cache := s.cache.cbL2Cache + s.cache.cbTable }.setEntry p
          ⟨1, 0, fun _ => 0⟩) ∨
      (p ∈ s.cache.listSearch ∧ (s.cache.entry p).cRefs = 0 ∧
        cache = { s.cache with
          listSearch := s.cache.listSearch.erase p
          listLru := s.cache.listLru.erase p }.setEntry p
            { s.cache.entry p with offL2Tbl := 0, cRefs := 1 }) := by
  unfold L2Cache.alloc at got
  split at got
  case isTrue fits =>
    left
    cases memory : mem with
    | none =>
      rw [memory] at got
      cases got
    | some q =>
      rw [memory] at got
      obtain ⟨rfl, rfl⟩ := Prod.mk.inj (some.inj got)
      exact ⟨fits, rfl, rfl⟩
  case isFalse =>
    right
    rw [L2Cache.dummyLru_eq] at got
    simp only at got
    have heads : ∀ q ∈ s.cache.listLru.reverse, q ≠ s.cache.dummySearch := fun q member =>
      coherent.heads q (.inl (coherent.perm.mem_iff.mp (mem_reverse.mp member)))
    rcases L2Cache.getD_find?_cases heads with ⟨q, member, test, ended, entry⟩ | ⟨-, ended⟩
    · rw [ended, if_pos entry] at got
      obtain ⟨rfl, rfl⟩ := Prod.mk.inj (some.inj got)
      exact ⟨coherent.perm.mem_iff.mp (mem_reverse.mp member), of_decide_eq_true test, rfl⟩
    · rw [ended, if_neg (not_not.mpr rfl)] at got
      cases got

/-- With no memory left and every entry in use there is none: the loop's pointer is recognised as the head. -/
theorem Coherent.alloc_full (coherent : Coherent s)
    (full : QED_L2_CACHE_MEMORY_MAX < s.cache.cbL2Cache + s.cache.cbTable)
    (used : ∀ p ∈ s.cache.listSearch, 0 < (s.cache.entry p).cRefs) (mem : Option Nat) :
    s.cache.alloc mem = none := by
  cases got : s.cache.alloc mem with
  | none => rfl
  | some found =>
    obtain ⟨p, cache⟩ := found
    rcases coherent.alloc_eq_some got with ⟨fits, -, -⟩ | ⟨listed, free, -⟩
    · exact absurd fits (Nat.not_le.mpr full)
    · exact absurd free (Nat.ne_of_gt (used p listed))

/-- Facts of an entry that is not `p` survive a change of `p`. -/
theorem off_setEntry_of_ne (cache : L2Cache) {p q : Nat} (different : q ≠ p) (entry : L2Entry) :
    (cache.setEntry p entry).off q = cache.off q :=
  congrArg L2Entry.offL2Tbl (cache.entry_setEntry_of_ne different entry)

/-- A handed out entry is not on the lists and may be filled. -/
theorem Coherent.allocated (coherent : Coherent s) {mem : Option Nat} (unused : s.Unused mem)
    {p : Nat} {cache : L2Cache} (got : s.cache.alloc mem = some (p, cache)) (offL2Tbl : Nat)
    (paL2Tbl : Nat → Nat) :
    Coherent { s with
      cache := cache.setEntry p ⟨(cache.entry p).cRefs, offL2Tbl, paL2Tbl⟩
      fresh := p :: s.fresh } := by
  rcases coherent.alloc_eq_some got with ⟨fits, rfl, rfl⟩ | ⟨listed, free, rfl⟩
  · obtain ⟨notListed, notFresh, notHead⟩ := unused p rfl
    have other : ∀ q ∈ s.cache.listSearch, q ≠ p := fun q member same => notListed (same ▸ member)
    refine
      { sorted := ?_
        perm := coherent.perm
        nodup := coherent.nodup
        fresh := nodup_cons.mpr ⟨notFresh, coherent.fresh⟩
        apart := forall_mem_cons.mpr ⟨notListed, coherent.apart⟩
        heads := ?_
        size := ?_
        max := fits
        held := coherent.held
        refs := ?_
        freshRefs := ?_
        tables := ?_ }
    · show (s.cache.listSearch.map _).Pairwise _
      rw [map_congr_left fun q member =>
        (off_setEntry_of_ne _ (other q member) _).trans (off_setEntry_of_ne _ (other q member) _)]
      exact coherent.sorted
    · rintro q (inList | inFresh)
      · exact coherent.heads q (.inl inList)
      · rcases mem_cons.mp inFresh with rfl | earlier
        · exact notHead
        · exact coherent.heads q (.inr earlier)
    · show s.cache.cbL2Cache + s.cache.cbTable =
        s.cache.cbTable * (s.cache.listSearch.length + (s.fresh.length + 1))
      rw [coherent.size, ← Nat.add_assoc, Nat.mul_succ]
    · intro q member
      rw [L2Cache.entry_setEntry_of_ne _ (other q member),
        L2Cache.entry_setEntry_of_ne _ (other q member)]
      exact coherent.refs q member
    · intro q member
      by_cases same : q = p
      · rw [same, L2Cache.entry_setEntry, L2Cache.entry_setEntry]
      · rw [L2Cache.entry_setEntry_of_ne _ same, L2Cache.entry_setEntry_of_ne _ same]
        exact coherent.freshRefs q ((mem_cons.mp member).resolve_left same)
    · intro q member
      rw [off_setEntry_of_ne _ (other q member), off_setEntry_of_ne _ (other q member),
        L2Cache.entry_setEntry_of_ne _ (other q member),
        L2Cache.entry_setEntry_of_ne _ (other q member)]
      exact coherent.tables q member
  · have notErased : p ∉ s.cache.listSearch.erase p := coherent.nodup.not_mem_erase
    have other : ∀ q ∈ s.cache.listSearch.erase p, q ≠ p := fun q member same =>
      notErased (same ▸ member)
    have notFresh : p ∉ s.fresh := fun member => coherent.apart p member listed
    have unheld : p ∉ s.held := by
      intro holds
      have count := coherent.refs p listed
      rw [free] at count
      exact absurd count.symm (Nat.ne_of_gt (count_pos_iff.mpr holds))
    refine
      { sorted := ?_
        perm := coherent.perm.erase p
        nodup := coherent.nodup.erase p
        fresh := nodup_cons.mpr ⟨notFresh, coherent.fresh⟩
        apart := forall_mem_cons.mpr ⟨notErased, fun q member inList =>
          coherent.apart q member (mem_of_mem_erase inList)⟩
        heads := ?_
        size := ?_
        max := coherent.max
        held := ?_
        refs := ?_
        freshRefs := ?_
        tables := ?_ }
    · show ((s.cache.listSearch.erase p).map _).Pairwise _
      rw [map_congr_left fun q member =>
        (off_setEntry_of_ne _ (other q member) _).trans (off_setEntry_of_ne _ (other q member) _)]
      exact coherent.sorted.sublist (erase_sublist.map s.cache.off)
    · rintro q (inList | inFresh)
      · exact coherent.heads q (.inl (mem_of_mem_erase inList))
      · rcases mem_cons.mp inFresh with rfl | earlier
        · exact coherent.heads q (.inl listed)
        · exact coherent.heads q (.inr earlier)
    · show s.cache.cbL2Cache =
        s.cache.cbTable * ((s.cache.listSearch.erase p).length + (s.fresh.length + 1))
      have some := length_pos_of_mem listed
      rw [coherent.size, length_erase_of_mem listed]
      congr 1
      omega
    · intro q member
      have different : q ≠ p := fun same => unheld (same ▸ member)
      exact (mem_erase_of_ne different).mpr (coherent.held q member)
    · intro q member
      rw [L2Cache.entry_setEntry_of_ne _ (other q member),
        L2Cache.entry_setEntry_of_ne _ (other q member)]
      exact coherent.refs q (mem_of_mem_erase member)
    · intro q member
      by_cases same : q = p
      · rw [same, L2Cache.entry_setEntry, L2Cache.entry_setEntry]
      · rw [L2Cache.entry_setEntry_of_ne _ same, L2Cache.entry_setEntry_of_ne _ same]
        exact coherent.freshRefs q ((mem_cons.mp member).resolve_left same)
    · intro q member
      rw [off_setEntry_of_ne _ (other q member), off_setEntry_of_ne _ (other q member),
        L2Cache.entry_setEntry_of_ne _ (other q member),
        L2Cache.entry_setEntry_of_ne _ (other q member)]
      exact coherent.tables q (mem_of_mem_erase member)

/-- An entry that was not inserted is freed, whatever is in it. -/
theorem Coherent.freeEntry (coherent : Coherent s) {p : Nat} (out : p ∈ s.fresh) (entry : L2Entry) :
    Coherent { s with cache := (s.cache.setEntry p entry).free, fresh := s.fresh.erase p } := by
  have other : ∀ q ∈ s.cache.listSearch, q ≠ p := fun q member same =>
    coherent.apart p out (same ▸ member)
  have erased : ∀ q ∈ s.fresh.erase p, q ≠ p := fun q member same =>
    coherent.fresh.not_mem_erase (same ▸ member)
  refine
    { sorted := ?_
      perm := coherent.perm
      nodup := coherent.nodup
      fresh := coherent.fresh.erase p
      apart := fun q member => coherent.apart q (mem_of_mem_erase member)
      heads := fun q known => coherent.heads q (known.imp_right mem_of_mem_erase)
      size := ?_
      max := Nat.le_trans (Nat.sub_le _ _) coherent.max
      held := coherent.held
      refs := ?_
      freshRefs := ?_
      tables := ?_ }
  · show (s.cache.listSearch.map (s.cache.setEntry p entry).off).Pairwise _
    rw [map_congr_left fun q member => off_setEntry_of_ne s.cache (other q member) entry]
    exact coherent.sorted
  · show s.cache.cbL2Cache - s.cache.cbTable =
      s.cache.cbTable * (s.cache.listSearch.length + (s.fresh.erase p).length)
    have some := length_pos_of_mem out
    have split : s.cache.listSearch.length + s.fresh.length =
        s.cache.listSearch.length + (s.fresh.length - 1) + 1 := by
      omega
    rw [coherent.size, length_erase_of_mem out, split, Nat.mul_succ, Nat.add_sub_cancel]
  · intro q member
    exact (congrArg L2Entry.cRefs (s.cache.entry_setEntry_of_ne (other q member) entry)).trans
      (coherent.refs q member)
  · intro q member
    exact (congrArg L2Entry.cRefs (s.cache.entry_setEntry_of_ne (erased q member) entry)).trans
      (coherent.freshRefs q (mem_of_mem_erase member))
  · intro q member
    show ((s.cache.setEntry p entry).entry q).paL2Tbl = s.disk ((s.cache.setEntry p entry).off q)
    rw [off_setEntry_of_ne _ (other q member), L2Cache.entry_setEntry_of_ne _ (other q member)]
    exact coherent.tables q member

theorem Coherent.free (coherent : Coherent s) {p : Nat} (out : p ∈ s.fresh) (fRelease : Bool) :
    Coherent { s with
      cache := (if fRelease then s.cache.release p else s.cache).free
      fresh := s.fresh.erase p } := by
  cases fRelease with
  | true => exact coherent.freeEntry out _
  | false =>
    have same : s.cache.setEntry p (s.cache.entry p) = s.cache := by
      unfold L2Cache.setEntry
      rw [update_eq_self]
    have freed := coherent.freeEntry out (s.cache.entry p)
    rw [same] at freed
    exact freed

/-! ### Insertion -/

/-- Where the offset is in order, the loop puts the entry where it belongs. -/
theorem L2Cache.insertSearch_spec (cache : L2Cache) {p : Nat}
    (sorted : (cache.listSearch.map cache.off).Pairwise (· < ·))
    (inOrder : InOrder (cache.listSearch.map cache.off) (cache.off p)) :
    ((cache.insertSearch p).map cache.off).Pairwise (· < ·) ∧
      (cache.insertSearch p).Perm (p :: cache.listSearch) := by
  unfold L2Cache.insertSearch
  cases list : cache.listSearch with
  | nil => exact ⟨pairwise_singleton _ _, Perm.refl _⟩
  | cons first rest =>
    rw [list] at sorted inOrder
    have behindFirst := (pairwise_cons.mp sorted).1
    by_cases front : cache.off p < cache.off first
    · simp only [if_pos front]
      refine ⟨pairwise_cons.mpr ⟨?_, sorted⟩, Perm.refl _⟩
      intro off member
      rcases mem_cons.mp member with rfl | later
      · exact front
      · exact Nat.lt_trans front (behindFirst off later)
    · simp only [if_neg front]
      have both : cache.off first < cache.off p ∧
          ∀ off ∈ rest.map cache.off, cache.off p < off := by
        cases rest with
        | nil =>
          have different : cache.off p ≠ cache.off first := inOrder
          exact ⟨Nat.lt_of_le_of_ne (Nat.not_lt.mp front) different.symm,
            fun _ member => absurd member not_mem_nil⟩
        | cons second more =>
          obtain ⟨low, high⟩ := inOrder.resolve_left front
          refine ⟨low, fun off member => ?_⟩
          rcases mem_cons.mp member with rfl | later
          · exact high
          · exact Nat.lt_trans high ((pairwise_cons.mp (pairwise_cons.mp sorted).2).1 off later)
      rw [L2Cache.insertBehind, if_pos both.1]
      constructor
      · refine pairwise_cons.mpr ⟨?_, pairwise_cons.mpr ⟨both.2, (pairwise_cons.mp sorted).2⟩⟩
        intro off member
        rcases mem_cons.mp member with rfl | later
        · exact both.1
        · exact behindFirst off later
      · exact Perm.swap p first rest

/-- An entry handed out is inserted, once its table is on the disk. -/
theorem Coherent.insert (coherent : Coherent s) {p : Nat} (out : p ∈ s.fresh)
    (inOrder : InOrder (s.cache.listSearch.map s.cache.off) (s.cache.off p)) : Coherent
      { cache := s.cache.insert p
        fresh := s.fresh.erase p
        held := p :: s.held
        disk := update s.disk (s.cache.off p) (s.cache.entry p).paL2Tbl } := by
  obtain ⟨sorted, perm⟩ := s.cache.insertSearch_spec coherent.sorted inOrder
  have notListed := coherent.apart p out
  have mem : ∀ q, q ∈ s.cache.insertSearch p ↔ q = p ∨ q ∈ s.cache.listSearch := fun q =>
    perm.mem_iff.trans mem_cons
  have unheld : p ∉ s.held := fun holds => notListed (coherent.held p holds)
  refine
    { sorted := sorted
      perm := (coherent.perm.cons p).trans perm.symm
      nodup := perm.nodup_iff.mpr (nodup_cons.mpr ⟨notListed, coherent.nodup⟩)
      fresh := coherent.fresh.erase p
      apart := ?_
      heads := ?_
      size := ?_
      max := coherent.max
      held := ?_
      refs := ?_
      freshRefs := fun q member => coherent.freshRefs q (mem_of_mem_erase member)
      tables := ?_ }
  · intro q member inList
    rcases (mem q).mp inList with rfl | listed
    · exact coherent.fresh.not_mem_erase member
    · exact coherent.apart q (mem_of_mem_erase member) listed
  · rintro q (inList | inFresh)
    · rcases (mem q).mp inList with rfl | listed
      · exact coherent.heads q (.inr out)
      · exact coherent.heads q (.inl listed)
    · exact coherent.heads q (.inr (mem_of_mem_erase inFresh))
  · show s.cache.cbL2Cache =
      s.cache.cbTable * ((s.cache.insertSearch p).length + (s.fresh.erase p).length)
    have some := length_pos_of_mem out
    rw [coherent.size, perm.length_eq, length_cons, length_erase_of_mem out]
    congr 1
    omega
  · intro q member
    rw [show (s.cache.insert p).listSearch = s.cache.insertSearch p from rfl, mem]
    rcases mem_cons.mp member with rfl | earlier
    · exact .inl rfl
    · exact .inr (coherent.held q earlier)
  · intro q member
    show (s.cache.entry q).cRefs = (p :: s.held).count q
    rcases (mem q).mp member with rfl | listed
    · rw [coherent.freshRefs q out, count_cons_self, count_eq_zero.mpr unheld]
    · have different : p ≠ q := fun same => notListed (same ▸ listed)
      rw [count_cons_of_ne different]
      exact coherent.refs q listed
  · intro q member
    show (s.cache.entry q).paL2Tbl = update s.disk _ _ (s.cache.off q)
    rcases (mem q).mp member with rfl | listed
    · rw [update_self]
    · -- Another entry is for another offset, since the list stays sorted.
      have other : s.cache.off q ≠ s.cache.off p := by
        intro same
        have offs := (perm.map s.cache.off).pairwise_iff (R := (· ≠ ·)) Ne.symm |>.mp
          (sorted.imp Nat.ne_of_lt)
        exact (pairwise_cons.mp offs).1 _ (List.mem_map_of_mem listed) same.symm
      rw [update_of_ne other]
      exact coherent.tables q listed

/-- A cluster is linked into a table, on the disk and in the cache. -/
theorem Coherent.link (coherent : Coherent s) {p : Nat} (holds : p ∈ s.held) (idxL2 offData : Nat) :
    Coherent { s with
      cache := s.cache.setEntry p { s.cache.entry p with
        paL2Tbl := update (s.cache.entry p).paL2Tbl idxL2 offData }
      disk := update s.disk (s.cache.off p)
        (update (s.disk (s.cache.off p)) idxL2 offData) } := by
  have listed := coherent.held p holds
  have offs : ∀ q, (s.cache.setEntry p { s.cache.entry p with
      paL2Tbl := update (s.cache.entry p).paL2Tbl idxL2 offData }).off q =
      s.cache.off q := by
    intro q
    by_cases same : q = p
    · unfold L2Cache.off
      rw [same, L2Cache.entry_setEntry]
    · exact off_setEntry_of_ne _ same _
  have cRefs : ∀ q, ((s.cache.setEntry p { s.cache.entry p with
      paL2Tbl := update (s.cache.entry p).paL2Tbl idxL2 offData }).entry q).cRefs =
      (s.cache.entry q).cRefs := by
    intro q
    by_cases same : q = p
    · rw [same, L2Cache.entry_setEntry]
    · exact congrArg L2Entry.cRefs (s.cache.entry_setEntry_of_ne same _)
  refine
    { sorted := ?_
      perm := coherent.perm
      nodup := coherent.nodup
      fresh := coherent.fresh
      apart := coherent.apart
      heads := coherent.heads
      size := coherent.size
      max := coherent.max
      held := coherent.held
      refs := fun q member => (cRefs q).trans (coherent.refs q member)
      freshRefs := fun q member => (cRefs q).trans (coherent.freshRefs q member)
      tables := ?_ }
  · show (s.cache.listSearch.map _).Pairwise _
    rw [map_congr_left fun q _ => offs q]
    exact coherent.sorted
  · intro q member
    rw [offs]
    by_cases same : q = p
    · subst same
      rw [L2Cache.entry_setEntry]
      show update (s.cache.entry q).paL2Tbl idxL2 offData =
        update s.disk (s.cache.off q) _ (s.cache.off q)
      rw [update_self, coherent.tables q listed]
    · have other : s.cache.off q ≠ s.cache.off p := by
        intro equal
        have distinct : (s.cache.listSearch.map s.cache.off).Nodup :=
          coherent.sorted.imp Nat.ne_of_lt
        exact same (inj_on_of_nodup_map distinct member listed equal)
      rw [L2Cache.entry_setEntry_of_ne _ same]
      show _ = update s.disk (s.cache.off p) _ (s.cache.off q)
      rw [update_of_ne other]
      exact coherent.tables q member

/-- A table that is fetched: in the cache before, read into an entry or not at all. -/
theorem fetch_cases {offL2Tbl : Nat} {mem : Option Nat}
    {fRead : Bool} {found : Option Nat} {cache : L2Cache}
    (fetched : s.cache.fetch s.disk offL2Tbl mem fRead = (found, cache)) :
    (∃ p, s.cache.retain offL2Tbl = some (p, cache) ∧ found = some p) ∨
      (s.cache.retain offL2Tbl = none ∧ s.cache.alloc mem = none ∧ cache = s.cache ∧ found = none) ∨
      ∃ p got, s.cache.retain offL2Tbl = none ∧ s.cache.alloc mem = some (p, got) ∧
        ((fRead = true ∧ found = some p ∧
            cache = (got.setEntry p ⟨(got.entry p).cRefs, offL2Tbl, s.disk offL2Tbl⟩).insert p) ∨
          (found = none ∧
            cache = ((got.setEntry p { got.entry p with offL2Tbl }).release p).free)) := by
  unfold L2Cache.fetch at fetched
  cases retained : s.cache.retain offL2Tbl with
  | some both =>
    rw [retained] at fetched
    obtain ⟨rfl, rfl⟩ := Prod.mk.inj fetched
    exact .inl ⟨both.1, rfl, rfl⟩
  | none =>
    rw [retained] at fetched
    right
    cases got : s.cache.alloc mem with
    | none =>
      rw [got] at fetched
      obtain ⟨rfl, rfl⟩ := Prod.mk.inj fetched
      exact .inl ⟨rfl, rfl, rfl, rfl⟩
    | some both =>
      rw [got] at fetched
      refine .inr ⟨both.1, both.2, rfl, rfl, ?_⟩
      cases fRead with
      | true =>
        obtain ⟨rfl, rfl⟩ := Prod.mk.inj fetched
        exact .inl ⟨rfl, rfl, rfl⟩
      | false =>
        obtain ⟨rfl, rfl⟩ := Prod.mk.inj fetched
        exact .inr ⟨rfl, rfl⟩

/-- What is evicted for a new entry is not in use. -/
theorem Coherent.alloc_kept (coherent : Coherent s) {mem : Option Nat} {p : Nat} {cache : L2Cache}
    (got : s.cache.alloc mem = some (p, cache)) {q : Nat} (listed : q ∈ s.cache.listSearch)
    (used : 0 < (s.cache.entry q).cRefs) : q ∈ cache.listSearch := by
  rcases coherent.alloc_eq_some got with ⟨-, -, rfl⟩ | ⟨-, free, rfl⟩
  · exact listed
  · have different : q ≠ p := by
      rintro rfl
      exact absurd free (Nat.ne_of_gt used)
    exact (mem_erase_of_ne different).mpr listed

theorem L2Cache.insertBehind_mem (cache : L2Cache) (p : Nat) (list : List Nat) {q : Nat}
    (listed : q ∈ list) : q ∈ cache.insertBehind p list := by
  induction list with
  | nil => cases listed
  | cons first rest ih =>
    rw [L2Cache.insertBehind]
    split
    · rcases mem_cons.mp listed with rfl | later
      · exact mem_cons_self
      · exact mem_cons_of_mem _ (mem_cons_of_mem _ later)
    · rcases mem_cons.mp listed with rfl | later
      · exact mem_cons_self
      · exact mem_cons_of_mem _ (ih later)

/-- An insertion takes nothing off the list. -/
theorem L2Cache.insert_mem (cache : L2Cache) (p : Nat) {q : Nat} (listed : q ∈ cache.listSearch) :
    q ∈ (cache.insert p).listSearch := by
  show q ∈ cache.insertSearch p
  unfold L2Cache.insertSearch
  cases list : cache.listSearch with
  | nil =>
    rw [list] at listed
    cases listed
  | cons first rest =>
    rw [list] at listed
    simp only
    split
    · exact mem_cons_of_mem _ listed
    · exact cache.insertBehind_mem p _ listed

end

/-! ### Every state -/

/-- What is said of a state of the cache: of its lists and its memory, and of what the next call does. -/
structure CacheSound (s : CacheState) : Prop where
  sorted : (s.cache.listSearch.map s.cache.off).Pairwise (· < ·)
  sameEntries : s.cache.listLru.Perm s.cache.listSearch ∧ s.cache.listSearch.Nodup
  memory : s.cache.cbL2Cache = s.cache.cbTable * (s.cache.listSearch.length + s.fresh.length) ∧
    s.cache.cbL2Cache ≤ QED_L2_CACHE_MEMORY_MAX
  kept : ∀ call t, s.next call = some t → ∀ p ∈ s.cache.listSearch,
    0 < (s.cache.entry p).cRefs → p ∈ t.cache.listSearch
  full : QED_L2_CACHE_MEMORY_MAX < s.cache.cbL2Cache + s.cache.cbTable →
    (∀ p ∈ s.cache.listSearch, 0 < (s.cache.entry p).cRefs) → ∀ mem, s.cache.alloc mem = none
  fetched : ∀ offL2Tbl mem fRead p cache,
    s.cache.fetch s.disk offL2Tbl mem fRead = (some p, cache) →
      cache.off p = offL2Tbl ∧ (cache.entry p).paL2Tbl = s.disk offL2Tbl

/-- Where a call inserts a table: its offset belongs in front of the second one in the list. -/
def InsertsInOrder (s : CacheState) : CacheCall → Prop
  | .fetch offL2Tbl mem fRead =>
    fRead = true → s.cache.retain offL2Tbl = none → ∀ p cache, s.cache.alloc mem = some (p, cache) →
      InOrder (cache.listSearch.map cache.off) offL2Tbl
  | .insert p => InOrder (s.cache.listSearch.map s.cache.off) (s.cache.off p)
  | _ => True

section

variable {s : CacheState}

theorem Coherent.kept (coherent : Coherent s) {call : CacheCall} {t : CacheState}
    (taken : s.next call = some t) {q : Nat} (listed : q ∈ s.cache.listSearch)
    (used : 0 < (s.cache.entry q).cRefs) : q ∈ t.cache.listSearch := by
  cases call with
  | fetch offL2Tbl mem fRead =>
    simp only [CacheState.next] at taken
    split at taken
    case isFalse => cases taken
    case isTrue =>
      rw [← some.inj taken]
      show q ∈ (s.cache.fetch s.disk offL2Tbl mem fRead).2.listSearch
      generalize result : s.cache.fetch s.disk offL2Tbl mem fRead = both
      obtain ⟨found, cache⟩ := both
      rcases fetch_cases result with
        ⟨p, retained, -⟩ | ⟨-, -, same, -⟩ | ⟨p, got, -, allocated, ⟨-, -, same⟩ | ⟨-, same⟩⟩
      · obtain ⟨-, -, rfl⟩ := coherent.retain_eq_some retained
        exact listed
      · rw [same]
        exact listed
      · rw [same]
        exact L2Cache.insert_mem _ _ (coherent.alloc_kept allocated listed used)
      · rw [same]
        exact coherent.alloc_kept allocated listed used
  | alloc offL2Tbl mem =>
    simp only [CacheState.next] at taken
    split at taken
    case isFalse => cases taken
    case isTrue =>
      split at taken
      case h_1 =>
        rw [← some.inj taken]
        exact listed
      case h_2 p cache got =>
        rw [← some.inj taken]
        exact coherent.alloc_kept got listed used
  | insert p =>
    simp only [CacheState.next] at taken
    split at taken
    · rw [← some.inj taken]
      exact s.cache.insert_mem p listed
    · cases taken
  | free p fRelease =>
    simp only [CacheState.next] at taken
    split at taken
    · rw [← some.inj taken]
      cases fRelease <;> exact listed
    · cases taken
  | link p idxL2 offData =>
    simp only [CacheState.next] at taken
    split at taken
    · rw [← some.inj taken]
      exact listed
    · cases taken
  | release p =>
    simp only [CacheState.next] at taken
    split at taken
    · rw [← some.inj taken]
      exact listed
    · cases taken

theorem Coherent.fetched (coherent : Coherent s) {offL2Tbl : Nat} {mem : Option Nat}
    {fRead : Bool} {p : Nat} {cache : L2Cache}
    (fetched : s.cache.fetch s.disk offL2Tbl mem fRead = (some p, cache)) :
    cache.off p = offL2Tbl ∧ (cache.entry p).paL2Tbl = s.disk offL2Tbl := by
  rcases fetch_cases fetched with
    ⟨q, retained, found⟩ | ⟨-, -, -, found⟩ | ⟨q, got, -, -, ⟨-, found, same⟩ | ⟨found, -⟩⟩
  · obtain rfl := some.inj found
    obtain ⟨listed, off, same⟩ := coherent.retain_eq_some retained
    have table := coherent.tables p listed
    rw [off] at table
    unfold L2Cache.off at off ⊢
    rw [same, L2Cache.entry_setEntry]
    exact ⟨off, table⟩
  · cases found
  · obtain rfl := some.inj found
    have entry : cache.entry p = ⟨(got.entry p).cRefs, offL2Tbl, s.disk offL2Tbl⟩ := by
      rw [same]
      exact got.entry_setEntry p _
    unfold L2Cache.off
    rw [entry]
    exact ⟨rfl, rfl⟩
  · cases found

theorem Coherent.sound (coherent : Coherent s) : CacheSound s where
  sorted := coherent.sorted
  sameEntries := ⟨coherent.perm, coherent.nodup⟩
  memory := ⟨coherent.size, coherent.max⟩
  kept _ _ taken _ listed used := coherent.kept taken listed used
  full full used mem := coherent.alloc_full full used mem
  fetched _ _ _ _ _ fetched := coherent.fetched fetched

/-- A call that inserts in order keeps the cache coherent. -/
theorem Coherent.next (coherent : Coherent s) {call : CacheCall} {t : CacheState}
    (inOrder : InsertsInOrder s call) (taken : s.next call = some t) : Coherent t := by
  cases call with
  | fetch offL2Tbl mem fRead =>
    simp only [CacheState.next] at taken
    split at taken
    case isFalse => cases taken
    case isTrue unused =>
      rw [← some.inj taken]
      generalize result : s.cache.fetch s.disk offL2Tbl mem fRead = both
      obtain ⟨found, cache⟩ := both
      rcases fetch_cases result with
        ⟨p, retained, rfl⟩ | ⟨-, -, rfl, rfl⟩ |
          ⟨p, got, missed, allocated, ⟨read, rfl, rfl⟩ | ⟨rfl, rfl⟩⟩
      · exact coherent.retained retained
      · exact coherent
      · have filled := coherent.allocated unused allocated offL2Tbl (s.disk offL2Tbl)
        have notListed := filled.apart p mem_cons_self
        have place : InOrder (got.listSearch.map
            (got.setEntry p ⟨(got.entry p).cRefs, offL2Tbl, s.disk offL2Tbl⟩).off)
            ((got.setEntry p ⟨(got.entry p).cRefs, offL2Tbl, s.disk offL2Tbl⟩).off p) := by
          have off : (got.setEntry p ⟨(got.entry p).cRefs, offL2Tbl, s.disk offL2Tbl⟩).off p =
              offL2Tbl := congrArg L2Entry.offL2Tbl (got.entry_setEntry p _)
          have others : got.listSearch.map
              (got.setEntry p ⟨(got.entry p).cRefs, offL2Tbl, s.disk offL2Tbl⟩).off =
              got.listSearch.map got.off :=
            map_congr_left fun q (member : q ∈ got.listSearch) =>
              have different : q ≠ p := fun same => notListed (same ▸ member)
              off_setEntry_of_ne got different _
          rw [off, others]
          exact inOrder read missed p got allocated
        have inserted := filled.insert mem_cons_self place
        have entry := got.entry_setEntry p ⟨(got.entry p).cRefs, offL2Tbl, s.disk offL2Tbl⟩
        simp only [L2Cache.off, entry, update_eq_self, erase_cons_head] at inserted
        exact inserted
      · have filled := coherent.allocated unused allocated offL2Tbl (got.entry p).paL2Tbl
        have freed := filled.free mem_cons_self true
        rw [erase_cons_head] at freed
        exact freed
  | alloc offL2Tbl mem =>
    simp only [CacheState.next] at taken
    split at taken
    case isFalse => cases taken
    case isTrue unused =>
      split at taken
      case h_1 =>
        rw [← some.inj taken]
        exact coherent
      case h_2 p cache got =>
        rw [← some.inj taken]
        exact coherent.allocated unused got offL2Tbl _
  | insert p =>
    simp only [CacheState.next] at taken
    split at taken
    case isTrue out =>
      rw [← some.inj taken]
      exact coherent.insert out inOrder
    case isFalse => cases taken
  | free p fRelease =>
    simp only [CacheState.next] at taken
    split at taken
    case isTrue out =>
      rw [← some.inj taken]
      exact coherent.free out fRelease
    case isFalse => cases taken
  | link p idxL2 offData =>
    simp only [CacheState.next] at taken
    split at taken
    case isTrue holds =>
      rw [← some.inj taken]
      exact coherent.link holds idxL2 offData
    case isFalse => cases taken
  | release p =>
    simp only [CacheState.next] at taken
    split at taken
    case isTrue holds =>
      rw [← some.inj taken]
      exact coherent.release holds
    case isFalse => cases taken

end

/-- The cache after `qedL2TblCacheCreate`. -/
def CacheState.created (addrListSearch cbTable : Nat) (disk : Nat → Nat → Nat) : CacheState :=
  { cache := ⟨addrListSearch, cbTable, 0, [], [], fun _ => ⟨0, 0, fun _ => 0⟩⟩
    fresh := []
    held := []
    disk }

theorem coherent_created (addrListSearch cbTable : Nat) (disk : Nat → Nat → Nat) :
    Coherent (.created addrListSearch cbTable disk) where
  sorted := List.Pairwise.nil
  perm := Perm.refl _
  nodup := nodup_nil
  fresh := nodup_nil
  apart _ member := absurd member not_mem_nil
  heads _ known := known.elim (absurd · not_mem_nil) (absurd · not_mem_nil)
  size := rfl
  max := Nat.zero_le _
  held _ member := absurd member not_mem_nil
  refs _ member := absurd member not_mem_nil
  freshRefs _ member := absurd member not_mem_nil
  tables _ member := absurd member not_mem_nil

/-- Every state of the cache is sound as long as the insertions are in order. -/
theorem cache_sound {addrListSearch cbTable : Nat} {disk : Nat → Nat → Nat}
    {calls : List CacheCall} {s : CacheState}
    (run : Run (Guarded InsertsInOrder fun s call t => s.next call = some t)
      (.created addrListSearch cbTable disk) calls s) : CacheSound s := by
  have coherent := run.invariant Coherent
    (fun coherent taken => coherent.next taken.1 taken.2)
    (coherent_created addrListSearch cbTable disk)
  exact coherent.sound

/-- A new table is inserted into an empty cache, and one read behind it. -/
def growingCalls : List CacheCall :=
  [.alloc 0x20000 (some 0x5000), .insert 0x5000, .link 0x5000 7 0x30000, .release 0x5000,
    .fetch 0x10000 (some 0x6000) true, .release 0x6000]

theorem cache_sound_growing : ∃ s,
    Run (Guarded InsertsInOrder fun s call t => s.next call = some t)
      (.created 0x100 0x10000 fun _ _ => 0) growingCalls s ∧ CacheSound s := by
  obtain ⟨s, run⟩ : ∃ s, Run (Guarded InsertsInOrder fun s call t => s.next call = some t)
      (.created 0x100 0x10000 fun _ _ => 0) growingCalls s :=
    ⟨_, .next ⟨trivial, rfl⟩ (.next ⟨trivial, rfl⟩ (.next ⟨trivial, rfl⟩ (.next ⟨trivial, rfl⟩
      (.next ⟨fun _ _ p cache got => by
        obtain ⟨rfl, rfl⟩ := Prod.mk.inj (some.inj got)
        exact (by decide : 0x10000 ≠ 0x20000), rfl⟩ (.next ⟨trivial, rfl⟩ (.done _))))))⟩
  exact ⟨s, run, cache_sound run⟩

/-- Three tables fetched from the first to the last are not in order. -/
theorem cache_not_sorted : ¬ ∀ addrListSearch cbTable disk calls s,
    Run (Guarded (fun _ _ => True) fun s call t => CacheState.next s call = some t)
      (.created addrListSearch cbTable disk) calls s → CacheSound s := by
  intro sound
  obtain ⟨s, run, unsorted⟩ := Run.exists_of_follow (fun _ _ => True) CacheState.next
    (.created 0x100 0x10000 fun _ _ => 0)
    [.fetch 0x10000 (some 0x5000) true, .fetch 0x20000 (some 0x6000) true,
      .fetch 0x30000 (some 0x7000) true]
    (fun s => ¬ (s.cache.listSearch.map s.cache.off).Pairwise (· < ·)) (by decide +kernel)
  exact unsorted (sound _ _ _ _ _ run).sorted

end VBox.Storage.Qed
