import VBox.Vmm.Gmm.Counts

/-!
Chunks that count their pages, on the lists they belong on, and the totals over them.

`Arranged` is what every operation keeps whatever the counters of the VMs say. Beside it
each operation says what it does to the two totals: the pages in use, and the private pages
of a VM.
-/

namespace VBox.Vmm

open Function (update)
open VBox.Lib
open GmmChunk (Taken isPrivate isShared isPrivateOf ofKind)

namespace Gmm

variable {g g' g'' : Gmm} {id hGVM : Nat}

/-! ### Totals -/

/-- A sum over the chunks. -/
noncomputable def total (g : Gmm) (f : GmmChunk → Nat) : Nat := ∑ id ∈ chunkIds, ((g.chunks id).map f).getD 0

/-- One chunk changes. -/
theorem total_update {v : Option GmmChunk} (chunks : g'.chunks = update g.chunks id v)
    (known : id ∈ chunkIds) (f : GmmChunk → Nat) :
    g'.total f + ((g.chunks id).map f).getD 0 = g.total f + (v.map f).getD 0 := by
  have sums := sum_update_of_mem (f := g.chunks) (x := v) known fun chunk => (chunk.map f).getD 0
  rw [← chunks] at sums
  exact sums

/-- The pages in use. -/
noncomputable def used (g : Gmm) : Nat := g.total fun chunk => chunk.cPrivate + chunk.cShared

/-- The private pages of a VM. -/
noncomputable def owned (g : Gmm) (hGVM : Nat) : Nat := g.total (·.count (isPrivateOf hGVM))

theorem used_congr (chunks : g'.chunks = g.chunks) : g'.used = g.used := by
  rw [used, total, chunks]
  rfl

theorem owned_congr (chunks : g'.chunks = g.chunks) (h : Nat) : g'.owned h = g.owned h := by
  rw [owned, total, chunks]
  rfl

/-- The counters of the pages in use are the same. -/
structure SameCounters (g g' : Gmm) : Prop where
  legacy : g'.fLegacyAllocationMode = g.fLegacyAllocationMode
  cAllocatedPages : g'.cAllocatedPages = g.cAllocatedPages
  cPrivatePages : ∀ h, (g'.vms h).cPrivatePages = (g.vms h).cPrivatePages

namespace SameCounters

theorem of_vms (legacy : g'.fLegacyAllocationMode = g.fLegacyAllocationMode)
    (cAllocatedPages : g'.cAllocatedPages = g.cAllocatedPages) (vms : g'.vms = g.vms) :
    SameCounters g g' :=
  ⟨legacy, cAllocatedPages, fun h => by rw [vms]⟩

theorem refl (g : Gmm) : SameCounters g g := .of_vms rfl rfl rfl

theorem trans (first : SameCounters g g') (second : SameCounters g' g'') : SameCounters g g'' :=
  ⟨second.legacy.trans first.legacy, second.cAllocatedPages.trans first.cAllocatedPages,
    fun h => (second.cPrivatePages h).trans (first.cPrivatePages h)⟩

theorem unlinkChunk (g : Gmm) (id : Nat) (chunk : GmmChunk) :
    SameCounters g (g.unlinkChunk id chunk) := by
  unfold Gmm.unlinkChunk
  split
  · exact .refl g
  · exact .of_vms rfl rfl rfl

theorem setChunk (g : Gmm) (id : Nat) (chunk : GmmChunk) : SameCounters g (g.setChunk id chunk) :=
  .of_vms rfl rfl rfl

theorem linkChunk (g : Gmm) (id : Nat) (chunk : GmmChunk) (pSet : SetId) :
    SameCounters g (g.linkChunk id chunk pSet) := by
  unfold Gmm.linkChunk
  split
  · exact .of_vms rfl rfl rfl
  · exact .refl g

/-- The fields of a VM that no counter of pages in use is among. -/
theorem setVm (g : Gmm) (hGVM : Nat) {vm : GmmPerVm}
    (same : vm.cPrivatePages = (g.vms hGVM).cPrivatePages) : SameCounters g (g.setVm hGVM vm) := by
  refine ⟨rfl, rfl, ?_⟩
  intro h
  by_cases eq : h = hGVM
  · rw [eq, setVm_vms, Function.update_self, same]
  · rw [setVm_vms, Function.update_of_ne eq]

end SameCounters

/-! ### The arrangement -/

/-- The chunks count their pages and are on the lists they belong on. -/
structure Arranged (g : Gmm) : Prop where
  legacy : g.fLegacyAllocationMode = false
  shelved : g.Shelved
  chunks : ∀ id chunk, g.chunks id = some chunk →
    id ∈ chunkIds ∧ chunk.Counted ∧ (0 < chunk.cFree ↔ chunk.pSet ≠ none)

namespace Arranged

theorem congr (arranged : g.Arranged) (legacy : g'.fLegacyAllocationMode = g.fLegacyAllocationMode)
    (sets : g'.sets = g.sets) (chunks : g'.chunks = g.chunks) : g'.Arranged := by
  refine ⟨legacy.trans arranged.legacy, arranged.shelved.congr sets ?_, ?_⟩
  · funext id
    rw [shelf, chunks, shelf]
  · rw [chunks]
    exact arranged.chunks

theorem setAllocatedPages (arranged : g.Arranged) (n : Nat) : (g.setAllocatedPages n).Arranged :=
  arranged.congr rfl rfl rfl

theorem setSharedPages (arranged : g.Arranged) (n : Nat) : (g.setSharedPages n).Arranged :=
  arranged.congr rfl rfl rfl

theorem setDuplicatePages (arranged : g.Arranged) (n : Nat) : (g.setDuplicatePages n).Arranged :=
  arranged.congr rfl rfl rfl

theorem setVm (arranged : g.Arranged) (hGVM : Nat) (vm : GmmPerVm) : (g.setVm hGVM vm).Arranged :=
  arranged.congr rfl rfl rfl

/-- One chunk changes. -/
theorem change (arranged : g.Arranged) (known : id ∈ chunkIds) (shelved : g'.Shelved)
    (legacy : g'.fLegacyAllocationMode = g.fLegacyAllocationMode) {v : Option GmmChunk}
    (chunks : g'.chunks = update g.chunks id v) (right : ∀ chunk, v = some chunk →
      chunk.Counted ∧ (0 < chunk.cFree ↔ chunk.pSet ≠ none)) : g'.Arranged := by
  refine ⟨legacy.trans arranged.legacy, shelved, ?_⟩
  intro other chunk here
  rw [chunks] at here
  by_cases eq : other = id
  · rw [eq, Function.update_self] at here
    exact ⟨eq ▸ known, right chunk here⟩
  · rw [Function.update_of_ne eq] at here
    exact arranged.chunks other chunk here

/-- A chunk is on a list iff it has free pages. -/
theorem shelf_cases (arranged : g.Arranged) {chunk : GmmChunk} (here : g.chunks id = some chunk) :
    (g.shelf id = none ∧ chunk.cFree = 0) ∨
      ∃ pSet, chunk.pSet = some pSet ∧ g.shelf id = some (pSet, chunk.cFree) := by
  have linked := (arranged.chunks id chunk here).2.2
  rw [shelf_of_chunk here]
  cases on : chunk.pSet with
  | none =>
    rw [on] at linked
    exact .inl ⟨GmmChunk.shelf_none on, Nat.eq_zero_of_not_pos fun some => linked.1 some rfl⟩
  | some pSet => exact .inr ⟨pSet, rfl, GmmChunk.shelf_some on⟩

end Arranged

/-- Where a chunk is linked. -/
def linkedIn (chunk : GmmChunk) (pSet : SetId) : Option SetId :=
  if 0 < chunk.cFree then some pSet else none

theorem linkedIn_iff (chunk : GmmChunk) (pSet : SetId) :
    0 < chunk.cFree ↔ linkedIn chunk pSet ≠ none := by
  unfold linkedIn
  split <;> simp_all

theorem linkChunk_chunks_eq {chunk : GmmChunk} (pSet : SetId) (here : g.chunks id = some chunk)
    (off : chunk.pSet = none) : (g.linkChunk id chunk pSet).chunks =
      update g.chunks id (some { chunk with pSet := linkedIn chunk pSet }) := by
  unfold linkChunk linkedIn
  split
  · rfl
  · rw [← off]
    exact (Function.update_eq_self_iff.2 here.symm).symm

/-- A chunk leaves its list, changes, and goes on the list it belongs on then. -/
theorem Shelved.relink (shelved : g.Shelved) (known : id ∈ chunkIds) {stored chunk : GmmChunk}
    (taken : GmmChunk) (pSet : SetId) (here : g.chunks id = some stored) (same : chunk.shelf = stored.shelf)
    (fits : taken.cFree ≤ chunkNumPages) (off : taken.pSet = none) :
    (((g.unlinkChunk id chunk).setChunk id taken).linkChunk id taken pSet).Shelved ∧
    (((g.unlinkChunk id chunk).setChunk id taken).linkChunk id taken pSet).chunks =
      update g.chunks id (some { taken with pSet := linkedIn taken pSet }) ∧
    SameCounters g (((g.unlinkChunk id chunk).setChunk id taken).linkChunk id taken pSet) := by
  obtain ⟨left, leftOff, leftChunks⟩ := unlinkChunk_chunks here same
  have empty : (g.unlinkChunk id chunk).shelf id = taken.shelf := by
    rw [shelf_update leftChunks, Function.update_self, Option.bind_some,
      GmmChunk.shelf_none leftOff, GmmChunk.shelf_none off]
  have put := (shelved.unlinkChunk here same).setChunk empty
  have there : ((g.unlinkChunk id chunk).setChunk id taken).chunks id = some taken := by
    rw [setChunk_chunks, Function.update_self]
  refine ⟨put.linkChunk known there off fits pSet, ?_,
    ((SameCounters.unlinkChunk g id chunk).trans (.setChunk _ id taken)).trans
      (.linkChunk _ id taken pSet)⟩
  rw [linkChunk_chunks_eq pSet there off, setChunk_chunks, leftChunks, Function.update_idem,
    Function.update_idem]

theorem Arranged.relink (arranged : g.Arranged) {stored chunk taken : GmmChunk} (pSet : SetId)
    (here : g.chunks id = some stored) (same : chunk.shelf = stored.shelf)
    (counted : taken.Counted) (off : taken.pSet = none) :
    (((g.unlinkChunk id chunk).setChunk id taken).linkChunk id taken pSet).Arranged ∧
    (((g.unlinkChunk id chunk).setChunk id taken).linkChunk id taken pSet).chunks =
      update g.chunks id (some { taken with pSet := linkedIn taken pSet }) ∧
    SameCounters g (((g.unlinkChunk id chunk).setChunk id taken).linkChunk id taken pSet) := by
  obtain ⟨known, -, -⟩ := arranged.chunks id stored here
  obtain ⟨shelved, chunks, counters⟩ :=
    arranged.shelved.relink known taken pSet here same counted.cFree_le off
  refine ⟨arranged.change known shelved counters.legacy chunks ?_, chunks, counters⟩
  intro after eq
  cases eq
  exact ⟨counted.congr rfl rfl rfl rfl rfl, linkedIn_iff taken pSet⟩

end Gmm

end VBox.Vmm
