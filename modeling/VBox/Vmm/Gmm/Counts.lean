import VBox.Vmm.Gmm.Limits
import VBox.Vmm.Gmm.Shelves
import Mathlib.Algebra.BigOperators.Group.Finset.Piecewise

/-!
The counters of a chunk, when pages of it are allocated and freed.
-/

namespace VBox.Vmm

open VBox.Lib List Function

namespace GmmChunk

variable {chunk chunk' chunk'' : GmmChunk} {iPage hGVM n m : Nat}

/-- 1 for a page of the kind. -/
def ofKind (kind : GmmPage → Bool) (page : GmmPage) : Nat := if kind page then 1 else 0

theorem count_eq_sum (chunk : GmmChunk) (kind : GmmPage → Bool) :
    chunk.count kind = ∑ i ∈ Finset.range chunkNumPages, ofKind kind (chunk.aPages i) := by
  unfold ofKind
  rw [← Finset.card_filter, count]
  simp [Finset.card, Finset.filter, Multiset.range]

/-- A page changes its kind. -/
theorem count_update {page : GmmPage} (pages : chunk'.aPages = update chunk.aPages iPage page)
    (bound : iPage < chunkNumPages) (kind : GmmPage → Bool) :
    chunk'.count kind + ofKind kind (chunk.aPages iPage) = chunk.count kind + ofKind kind page := by
  rw [count_eq_sum, count_eq_sum, pages]
  exact sum_update_of_mem (Finset.mem_range.2 bound) (ofKind kind)

theorem count_le (chunk : GmmChunk) (kind : GmmPage → Bool) : chunk.count kind ≤ chunkNumPages := by
  have le := length_filter_le (fun i => kind (chunk.aPages i)) (range chunkNumPages)
  rwa [length_range] at le

theorem Counted.cFree_le (counted : chunk.Counted) : chunk.cFree ≤ chunkNumPages :=
  counted.freeListed.cFree_le

/-- A chunk is counted whatever set it is on and whoever it belongs to. -/
theorem Counted.congr (counted : chunk.Counted) (aPages : chunk'.aPages = chunk.aPages)
    (iFreeHead : chunk'.iFreeHead = chunk.iFreeHead) (cFree : chunk'.cFree = chunk.cFree)
    (cPrivate : chunk'.cPrivate = chunk.cPrivate) (cShared : chunk'.cShared = chunk.cShared) :
    chunk'.Counted := by
  refine ⟨?_, ?_, ?_⟩
  · rw [aPages, iFreeHead, cFree]
    exact counted.freeList
  · rw [cPrivate, counted.cPrivate, count, count, aPages]
  · rw [cShared, counted.cShared, count, count, aPages]

/-! ### Taking pages -/

/-- `n` pages have been taken for a VM. -/
structure Taken (hGVM n : Nat) (chunk chunk' : GmmChunk) : Prop where
  counted : chunk'.Counted
  cFree : chunk'.cFree + n = chunk.cFree
  used : chunk'.cPrivate + chunk'.cShared = chunk.cPrivate + chunk.cShared + n
  owned : ∀ h, chunk'.count (isPrivateOf h) =
    chunk.count (isPrivateOf h) + if h = hGVM then n else 0
  pSet : chunk'.pSet = chunk.pSet

theorem Taken.refl (counted : chunk.Counted) : Taken hGVM 0 chunk chunk :=
  ⟨counted, rfl, rfl, fun h => by simp, rfl⟩

theorem Taken.trans (first : Taken hGVM n chunk chunk') (second : Taken hGVM m chunk' chunk'') :
    Taken hGVM (n + m) chunk chunk'' := by
  refine ⟨second.counted, ?_, ?_, ?_, second.pSet.trans first.pSet⟩
  · rw [← first.cFree, ← second.cFree]
    omega
  · rw [second.used, first.used]
    omega
  · intro h
    rw [second.owned, first.owned]
    split <;> omega

theorem allocatePage_taken_one (counted : chunk.Counted) (some : chunk.cFree ≠ 0)
    (handle : hGVM < 2 ^ 16) (hcPhysGCPhys : Nat) :
    Taken hGVM 1 chunk (Gmm.allocatePage chunk hGVM hcPhysGCPhys).1 := by
  obtain ⟨pages, chain, length, all⟩ := counted.freeList
  have small := counted.cFree_le
  have privateSmall := chunk.count_le isPrivate
  have free : subW 16 chunk.cFree 1 = chunk.cFree - 1 := subW_of_le (by
    rw [chunkNumPages] at small
    omega) (by omega)
  have more : addW 16 chunk.cPrivate 1 = chunk.cPrivate + 1 := addW_of_lt (by
    rw [counted.cPrivate]
    rw [chunkNumPages] at privateSmall
    omega)
  generalize head : chunk.iFreeHead = iHead at chain
  cases chain with
  | nil => exact absurd length.symm some
  | @cons _ iNext pages bound page fresh chain =>
    have aPages : (Gmm.allocatePage chunk hGVM hcPhysGCPhys).1.aPages = update chunk.aPages iHead
        (.priv (if hcPhysGCPhys ≤ gcPhysLast then hcPhysGCPhys / 4096 % 2 ^ 32
          else pfnUnshareable) hGVM) := by
      simp only [Gmm.allocatePage, head, Nat.mod_eq_of_lt handle]
    have iFreeHead : (Gmm.allocatePage chunk hGVM hcPhysGCPhys).1.iFreeHead = iNext := by
      simp only [Gmm.allocatePage, head, page, GmmPage.iNext]
    have cFree : (Gmm.allocatePage chunk hGVM hcPhysGCPhys).1.cFree = chunk.cFree - 1 := free
    have cPrivate : (Gmm.allocatePage chunk hGVM hcPhysGCPhys).1.cPrivate = chunk.cPrivate + 1 :=
      more
    have cShared : (Gmm.allocatePage chunk hGVM hcPhysGCPhys).1.cShared = chunk.cShared := rfl
    have pSet : (Gmm.allocatePage chunk hGVM hcPhysGCPhys).1.pSet = chunk.pSet := rfl
    generalize (Gmm.allocatePage chunk hGVM hcPhysGCPhys).1 = taken at *
    have counts := fun kind => count_update aPages bound kind
    simp only [page] at counts
    refine ⟨⟨⟨pages, ?_, ?_, ?_⟩, ?_, ?_⟩, ?_, ?_, ?_, pSet⟩
    · rw [aPages, iFreeHead]
      exact chain.update_of_notMem _ fresh
    · rw [cFree, ← length, length_cons, Nat.add_sub_cancel]
    · intro i iNext' lt page'
      by_cases eq : i = iHead
      · rw [aPages, eq, update_self] at page'
        cases page'
      · rw [aPages, update_of_ne eq] at page'
        rcases mem_cons.1 (all i iNext' lt page') with rfl | mem
        · exact absurd rfl eq
        · exact mem
    · have count := counts isPrivate
      simp [ofKind, isPrivate] at count
      rw [cPrivate, counted.cPrivate, count]
    · have count := counts isShared
      simp [ofKind, isShared] at count
      rw [cShared, counted.cShared, count]
    · omega
    · omega
    · intro h
      have count := counts (isPrivateOf h)
      simp [ofKind, isPrivateOf] at count
      rw [count]
      simp [eq_comm]

/-- What the loop takes; it stops before its end only at a chunk without a free page. -/
theorem takePages_taken (handle : hGVM < 2 ^ 16) (id : Nat) (ids left : List Nat)
    (counted : chunk.Counted) : ∃ n, Taken hGVM n chunk (Pick.takePages hGVM id ids left chunk).1 ∧
    (Pick.takePages hGVM id ids left chunk).2.1.length = ids.length + n ∧
    (Pick.takePages hGVM id ids left chunk).2.2.length + n = left.length ∧
    ((Pick.takePages hGVM id ids left chunk).2.2 ≠ [] →
      (Pick.takePages hGVM id ids left chunk).1.cFree = 0) := by
  induction left generalizing chunk ids with
  | nil => exact ⟨0, .refl counted, rfl, rfl, fun more => absurd rfl more⟩
  | cons hcPhysGCPhys left ih =>
    unfold Pick.takePages
    split
    · rename_i none
      exact ⟨0, .refl counted, rfl, rfl, fun _ => none⟩
    · rename_i some
      have one := allocatePage_taken_one counted some handle hcPhysGCPhys
      obtain ⟨n, taken, length, rest, stop⟩ := ih
        (ids ++ [id * chunkNumPages + (Gmm.allocatePage chunk hGVM hcPhysGCPhys).2]) one.counted
      refine ⟨1 + n, one.trans taken, ?_, ?_, stop⟩
      · rw [length, length_append, length_singleton, Nat.add_assoc]
      · rw [length_cons, ← rest, Nat.add_comm 1 n]
        rfl

/-! ### Freeing a page -/

/-- A page that is in use goes to the front of the free list. -/
theorem Counted.freePage (counted : chunk.Counted) (bound : iPage < chunkNumPages)
    (busy : ∀ iNext, chunk.aPages iPage ≠ .free iNext)
    (aPages : chunk'.aPages = update chunk.aPages iPage (.free chunk.iFreeHead))
    (iFreeHead : chunk'.iFreeHead = iPage) (cFree : chunk'.cFree = chunk.cFree + 1)
    (cPrivate : chunk'.cPrivate + ofKind isPrivate (chunk.aPages iPage) = chunk.cPrivate)
    (cShared : chunk'.cShared + ofKind isShared (chunk.aPages iPage) = chunk.cShared) :
    chunk'.Counted := by
  obtain ⟨pages, chain, length, all⟩ := counted.freeList
  have off : iPage ∉ pages := by
    intro mem
    obtain ⟨iNext, free⟩ := chain.free iPage mem
    exact busy iNext free
  have privates := count_update aPages bound isPrivate
  have shared := count_update aPages bound isShared
  have privateTotal := counted.cPrivate
  have sharedTotal := counted.cShared
  simp only [ofKind, isPrivate, isShared] at privates shared cPrivate cShared
  refine ⟨⟨iPage :: pages, ?_, ?_, ?_⟩, ?_, ?_⟩
  · rw [aPages, iFreeHead]
    exact .cons bound (update_self ..) off (chain.update_of_notMem _ off)
  · rw [length_cons, length, cFree]
  · intro i iNext lt page
    by_cases eq : i = iPage
    · rw [eq]
      exact mem_cons_self
    · rw [aPages, update_of_ne eq] at page
      exact mem_cons_of_mem _ (all i iNext lt page)
  · simp only [Bool.false_eq_true, if_false] at privates
    omega
  · simp only [Bool.false_eq_true, if_false] at shared
    omega

/-- Another page of the same kind. -/
theorem Counted.setPage {page : GmmPage} (counted : chunk.Counted) (bound : iPage < chunkNumPages)
    (busy : ∀ iNext, chunk.aPages iPage ≠ .free iNext) (busy' : ∀ iNext, page ≠ .free iNext)
    (aPages : chunk'.aPages = update chunk.aPages iPage page)
    (iFreeHead : chunk'.iFreeHead = chunk.iFreeHead) (cFree : chunk'.cFree = chunk.cFree)
    (cPrivate : chunk'.cPrivate = chunk.cPrivate) (cShared : chunk'.cShared = chunk.cShared)
    (privates : isPrivate page = isPrivate (chunk.aPages iPage))
    (shared : isShared page = isShared (chunk.aPages iPage)) : chunk'.Counted := by
  obtain ⟨pages, chain, length, all⟩ := counted.freeList
  have off : iPage ∉ pages := by
    intro mem
    obtain ⟨iNext, free⟩ := chain.free iPage mem
    exact busy iNext free
  have privateCount := count_update aPages bound isPrivate
  have sharedCount := count_update aPages bound isShared
  simp only [ofKind, privates, shared] at privateCount sharedCount
  refine ⟨⟨pages, ?_, ?_, ?_⟩, ?_, ?_⟩
  · rw [aPages, iFreeHead]
    exact chain.update_of_notMem _ off
  · rw [length, cFree]
  · intro i iNext lt free
    by_cases eq : i = iPage
    · rw [aPages, eq, update_self] at free
      exact absurd free (busy' iNext)
    · rw [aPages, update_of_ne eq] at free
      exact all i iNext lt free
  · rw [cPrivate, counted.cPrivate]
    exact (Nat.add_right_cancel privateCount).symm
  · rw [cShared, counted.cShared]
    exact (Nat.add_right_cancel sharedCount).symm

/-- All pages of a chunk are of a kind. -/
theorem count_of_all {kind : GmmPage → Bool}
    (all : ∀ i, i < chunkNumPages → kind (chunk.aPages i) = true) :
    chunk.count kind = chunkNumPages := by
  rw [count, filter_eq_self.2 fun i mem => all i (mem_range.1 mem), length_range]

theorem count_of_none {kind : GmmPage → Bool}
    (none : ∀ i, i < chunkNumPages → kind (chunk.aPages i) = false) : chunk.count kind = 0 := by
  rw [count, length_eq_zero_iff, filter_eq_nil_iff]
  intro i mem
  rw [none i (mem_range.1 mem)]
  exact Bool.false_ne_true

/-- A chunk of free pages has none of another kind. -/
theorem count_of_free (free : ∀ i, i < chunkNumPages → ∃ iNext, chunk.aPages i = .free iNext)
    {kind : GmmPage → Bool} (not : ∀ iNext, kind (.free iNext) = false) : chunk.count kind = 0 := by
  apply count_of_none
  intro i bound
  obtain ⟨iNext, page⟩ := free i bound
  rw [page, not]

/-- A chunk that counts as empty has no page in use. -/
theorem Counted.empty (counted : chunk.Counted) (full : chunk.cFree = chunkNumPages) :
    chunk.cPrivate + chunk.cShared = 0 ∧ ∀ h, chunk.count (isPrivateOf h) = 0 := by
  have free := fun i (bound : i < chunkNumPages) => counted.freeListed.free_of_full full bound
  refine ⟨?_, fun h => count_of_free free fun _ => rfl⟩
  rw [counted.cPrivate, counted.cShared, count_of_free free fun _ => rfl,
    count_of_free free fun _ => rfl]

theorem newChunk_counted (hGVM : Nat) : (Gmm.newChunk hGVM).Counted := by
  have free : ∀ i, i < chunkNumPages →
      ∃ iNext, (Gmm.newChunk hGVM).aPages i = .free iNext := fun i _ => ⟨_, rfl⟩
  refine ⟨?_, (count_of_free free fun _ => rfl).symm, (count_of_free free fun _ => rfl).symm⟩
  obtain ⟨pages, chain, length⟩ := newChunk_freeListed hGVM
  exact ⟨pages, chain, length, fun i _ bound _ => chain.mem_of_full length bound⟩

end GmmChunk

end VBox.Vmm
