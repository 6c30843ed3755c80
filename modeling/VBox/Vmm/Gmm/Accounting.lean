import VBox.Vmm.Gmm.Calls
import Mathlib.Algebra.BigOperators.Group.Finset.Basic

/-!
The page accounting of the global memory manager: what the counters of the chunks, of the
free sets and of the VMs have to do with the states of the pages.
-/

namespace VBox.Vmm

open List
open Function (update)

/-! ### The free list of a chunk -/

/-- The pages that the list from a head runs through: distinct free pages of the chunk. -/
inductive FreeChain (aPages : Nat → GmmPage) : Nat → List Nat → Prop where
  | nil (iHead : Nat) : FreeChain aPages iHead []
  | cons {iPage iNext : Nat} {pages : List Nat} : iPage < chunkNumPages →
      aPages iPage = .free iNext → iPage ∉ pages → FreeChain aPages iNext pages →
      FreeChain aPages iPage (iPage :: pages)

namespace FreeChain

variable {aPages : Nat → GmmPage} {iHead : Nat} {pages : List Nat}

section

variable (chain : FreeChain aPages iHead pages)

include chain

theorem nodup : pages.Nodup := by
  induction chain with
  | nil => exact nodup_nil
  | cons _ _ fresh _ ih => exact nodup_cons.2 ⟨fresh, ih⟩

theorem lt : ∀ i ∈ pages, i < chunkNumPages := by
  induction chain with
  | nil => intro i mem; cases mem
  | cons bound _ _ _ ih =>
    intro i mem
    rcases mem_cons.1 mem with rfl | mem
    · exact bound
    · exact ih i mem

theorem free : ∀ i ∈ pages, ∃ iNext, aPages i = .free iNext := by
  induction chain with
  | nil => intro i mem; cases mem
  | cons _ page _ _ ih =>
    intro i mem
    rcases mem_cons.1 mem with rfl | mem
    · exact ⟨_, page⟩
    · exact ih i mem

end

/-- A page off the list does not matter. -/
theorem update_of_notMem {iPage : Nat} (page : GmmPage) (chain : FreeChain aPages iHead pages)
    (off : iPage ∉ pages) : FreeChain (update aPages iPage page) iHead pages := by
  induction chain with
  | nil iHead => exact .nil iHead
  | @cons i iNext pages bound free fresh _ ih =>
    obtain ⟨ne, off⟩ := not_or.1 (mt mem_cons.2 off)
    refine .cons bound ?_ fresh (ih off)
    rw [Function.update_of_ne (Ne.symm ne), free]

section

variable (chain : FreeChain aPages iHead pages)

include chain

theorem toFinset_subset : pages.toFinset ⊆ Finset.range chunkNumPages := by
  intro i mem
  exact Finset.mem_range.2 (chain.lt i (mem_toFinset.1 mem))

theorem length_le : pages.length ≤ chunkNumPages := by
  have le := Finset.card_le_card chain.toFinset_subset
  rwa [toFinset_card_of_nodup chain.nodup, Finset.card_range] at le

/-- The list runs through every page if it is as long as the chunk. -/
theorem mem_of_full (full : pages.length = chunkNumPages) {i : Nat} (bound : i < chunkNumPages) :
    i ∈ pages := by
  have card : pages.toFinset.card = chunkNumPages := by
    rw [toFinset_card_of_nodup chain.nodup, full]
  have all := Finset.eq_of_subset_of_card_le chain.toFinset_subset
    (by rw [card, Finset.card_range])
  exact mem_toFinset.1 (all ▸ Finset.mem_range.2 bound)

end

/-- Free pages in a row, each the next one of the page before it. -/
theorem row {first count : Nat} (fits : first + count ≤ chunkNumPages)
    (page : ∀ i, first ≤ i → i < first + count → ∃ iNext, aPages i = .free iNext ∧
      (i + 1 < first + count → iNext = i + 1)) : FreeChain aPages first (range' first count) := by
  induction count generalizing first with
  | zero => exact .nil first
  | succ count ih =>
    obtain ⟨iNext, free, next⟩ := page first (le_refl _) (by omega)
    rw [range'_succ]
    refine .cons (by omega) free (by simp) ?_
    cases count with
    | zero => exact .nil iNext
    | succ count =>
      rw [next (by omega)]
      apply ih (by omega)
      intro i low high
      obtain ⟨iNext, free, next⟩ := page i (by omega) (by omega)
      exact ⟨iNext, free, fun lt => next (by omega)⟩

end FreeChain

/-! ### Chunks -/

namespace GmmChunk

/-- The list from `iFreeHead` runs through `cFree` distinct free pages. -/
def FreeListed (chunk : GmmChunk) : Prop :=
  ∃ pages, FreeChain chunk.aPages chunk.iFreeHead pages ∧ pages.length = chunk.cFree

def isPrivate : GmmPage → Bool
  | .priv _ _ => true
  | _ => false

def isShared : GmmPage → Bool
  | .shared _ _ => true
  | _ => false

def isPrivateOf (hGVM : Nat) : GmmPage → Bool
  | .priv _ owner => owner = hGVM
  | _ => false

/-- The number of pages of a kind. -/
def count (chunk : GmmChunk) (kind : GmmPage → Bool) : Nat :=
  ((List.range chunkNumPages).filter fun i => kind (chunk.aPages i)).length

/-- The counters of a chunk equal the numbers of its pages, and the list from `iFreeHead`
runs exactly once through the free ones. -/
structure Counted (chunk : GmmChunk) : Prop where
  freeList : ∃ pages, FreeChain chunk.aPages chunk.iFreeHead pages ∧
    pages.length = chunk.cFree ∧
    ∀ i iNext, i < chunkNumPages → chunk.aPages i = .free iNext → i ∈ pages
  cPrivate : chunk.cPrivate = chunk.count isPrivate
  cShared : chunk.cShared = chunk.count isShared

variable {chunk : GmmChunk}

theorem Counted.freeListed (counted : chunk.Counted) : chunk.FreeListed := by
  obtain ⟨pages, chain, length, -⟩ := counted.freeList
  exact ⟨pages, chain, length⟩

section

variable (listed : chunk.FreeListed)

include listed

theorem FreeListed.cFree_le : chunk.cFree ≤ chunkNumPages := by
  obtain ⟨pages, chain, length⟩ := listed
  exact length ▸ chain.length_le

/-- A chunk that counts as empty holds no page but free ones. -/
theorem FreeListed.free_of_full (full : chunk.cFree = chunkNumPages) {i : Nat}
    (bound : i < chunkNumPages) : ∃ iNext, chunk.aPages i = .free iNext := by
  obtain ⟨pages, chain, length⟩ := listed
  exact chain.free i (chain.mem_of_full (length.trans full) bound)

/-- The first page of the list, and what is left without it. -/
theorem FreeListed.head (some : chunk.cFree ≠ 0) :
    chunk.iFreeHead < chunkNumPages ∧ ∃ iNext, chunk.aPages chunk.iFreeHead = .free iNext ∧
      ∃ pages, chunk.iFreeHead ∉ pages ∧ FreeChain chunk.aPages iNext pages ∧
        pages.length + 1 = chunk.cFree := by
  obtain ⟨pages, chain, length⟩ := listed
  generalize iHead : chunk.iFreeHead = i at chain ⊢
  cases chain with
  | nil => exact absurd length.symm some
  | cons bound free fresh chain => exact ⟨bound, _, free, _, fresh, chain, length⟩

/-- A page goes to the front of the list. -/
theorem FreeListed.push {iPage : Nat} (bound : iPage < chunkNumPages)
    (used : ∀ iNext, chunk.aPages iPage ≠ .free iNext) : chunk.cFree < chunkNumPages ∧ ∃ pages,
      FreeChain (update chunk.aPages iPage (.free chunk.iFreeHead)) iPage pages ∧
        pages.length = chunk.cFree + 1 := by
  obtain ⟨pages, chain, length⟩ := listed
  have off : iPage ∉ pages := by
    intro mem
    obtain ⟨iNext, free⟩ := chain.free iPage mem
    exact used iNext free
  have pushed : FreeChain (update chunk.aPages iPage (.free chunk.iFreeHead)) iPage
      (iPage :: pages) :=
    .cons bound (Function.update_self ..) off (chain.update_of_notMem _ off)
  have le := pushed.length_le
  rw [length_cons, length] at le
  exact ⟨le, _, pushed, by rw [length_cons, length]⟩

end

theorem newChunk_freeListed (hGVM : Nat) : (Gmm.newChunk hGVM).FreeListed := by
  refine ⟨range' 0 chunkNumPages, FreeChain.row (le_of_eq (Nat.zero_add _)) ?_, by
    simp [Gmm.newChunk]⟩
  intro i _ _
  refine ⟨_, rfl, ?_⟩
  intro lt
  exact if_pos ((Nat.zero_add chunkNumPages) ▸ lt)

end GmmChunk

/-! ### The whole -/

namespace Gmm

/-- The page accounting. -/
structure Accounted (g : Gmm) : Prop where
  chunks : ∀ id chunk, g.chunks id = some chunk → id ≤ chunkIdLast ∧ chunk.Counted
  /-- A chunk is on exactly one list, the one for its `cFree`, iff it has free pages. -/
  lists : ∀ pSet iList id, id ∈ (g.sets pSet).apLists iList ↔ ∃ chunk, g.chunks id = some chunk ∧
    chunk.pSet = some pSet ∧ 0 < chunk.cFree ∧ iList = selectFreeSetList chunk.cFree
  linked : ∀ id chunk, g.chunks id = some chunk → (0 < chunk.cFree ↔ chunk.pSet ≠ none)
  nodup : ∀ pSet iList, ((g.sets pSet).apLists iList).Nodup
  cFreePages : ∀ pSet, (g.sets pSet).cFreePages = ∑ iList ∈ Finset.range (unusedList + 1),
    (((g.sets pSet).apLists iList).map fun id => ((g.chunks id).map (·.cFree)).getD 0).sum
  cAllocatedPages : g.cAllocatedPages = ∑ id ∈ Finset.range (chunkIdLast + 1),
    ((g.chunks id).map fun chunk => chunk.cPrivate + chunk.cShared).getD 0
  cPrivatePages : ∀ hGVM, (g.vms hGVM).cPrivatePages = ∑ id ∈ Finset.range (chunkIdLast + 1),
    ((g.chunks id).map (·.count (GmmChunk.isPrivateOf hGVM))).getD 0

/-- The part of the accounting that keeps VMs apart. -/
def Listed (g : Gmm) : Prop := ∀ id chunk, g.chunks id = some chunk → chunk.FreeListed

theorem Accounted.listed {g : Gmm} (accounted : g.Accounted) : g.Listed := by
  intro id chunk here
  exact (accounted.chunks id chunk here).2.freeListed

end Gmm

end VBox.Vmm
