import VBox.Vmm.Gmm.Accounting
import VBox.Vmm.Gmm.Picking

/-!
What the memory manager leaves alone.

`Keeps protects A` says of two states that every protected private page is still the same
one, that the VMs other than `A` are unchanged, and that the free lists are as they should
be. The operations that take pages protect every private page; those that free one protect
all the others.
-/

namespace VBox.Vmm

open Option Function

namespace Gmm

/-! ### Protected pages -/

/-- The protected private pages, by page id and owner, and the VMs other than `A` are left
alone. -/
structure Keeps (protects : Nat → Nat → Prop) (A : Nat) (g g' : Gmm) : Prop where
  listed : g'.Listed
  pages : ∀ idPage pfn owner, protects idPage owner →
    g.getPage idPage = some (.priv pfn owner) → g'.getPage idPage = some (.priv pfn owner)
  vms : ∀ B, B ≠ A → g'.vms B = g.vms B

/-- Every private page. -/
def anyPage (_ _ : Nat) : Prop := True

def pageBut (idPage : Nat) : Nat → Nat → Prop := fun other _ => other ≠ idPage

def othersPage (A : Nat) : Nat → Nat → Prop := fun _ owner => owner ≠ A

variable {protects : Nat → Nat → Prop} {A : Nat} {g g' : Gmm}

namespace Keeps

theorem refl (listed : g.Listed) : Keeps protects A g g :=
  ⟨listed, fun _ _ _ _ page => page, fun _ _ => rfl⟩

theorem trans {g'' : Gmm} (first : Keeps protects A g g') (second : Keeps protects A g' g'') :
    Keeps protects A g g'' := by
  refine ⟨second.listed, ?_, ?_⟩
  · intro idPage pfn owner safe page
    exact second.pages idPage pfn owner safe (first.pages idPage pfn owner safe page)
  · intro B other
    rw [second.vms B other, first.vms B other]

theorem of_any (keeps : Keeps anyPage A g g') : Keeps protects A g g' :=
  ⟨keeps.listed, fun idPage pfn owner _ => keeps.pages idPage pfn owner trivial, keeps.vms⟩

/-- A page of `A` may go. -/
theorem of_owned {idPage pfn : Nat} (keeps : Keeps (pageBut idPage) A g g')
    (page : g.getPage idPage = some (.priv pfn A)) : Keeps (othersPage A) A g g' := by
  refine ⟨keeps.listed, ?_, keeps.vms⟩
  intro other pfn' owner foreign page'
  apply keeps.pages other pfn' owner ?_ page'
  rintro rfl
  rw [page] at page'
  cases page'
  exact foreign rfl

/-- So may a page that is not private. -/
theorem of_notPrivate {idPage : Nat} (keeps : Keeps (pageBut idPage) A g g')
    (page : ∀ pfn owner, g.getPage idPage ≠ some (.priv pfn owner)) : Keeps anyPage A g g' := by
  refine ⟨keeps.listed, ?_, keeps.vms⟩
  intro other pfn owner _ page'
  apply keeps.pages other pfn owner ?_ page'
  rintro rfl
  exact page pfn owner page'

/-- Only the VM and counters of the whole change. -/
theorem of_chunks (listed : g.Listed) (chunks : g'.chunks = g.chunks)
    (vms : ∀ B, B ≠ A → g'.vms B = g.vms B) : Keeps protects A g g' := by
  refine ⟨?_, ?_, vms⟩
  · intro id chunk here
    exact listed id chunk (chunks ▸ here)
  · intro idPage pfn owner _ page
    rwa [getPage, chunks]

/-- Only one chunk changes, and it keeps its protected pages. -/
theorem of_others (listed : g.Listed) (id : Nat)
    (others : ∀ other, other ≠ id → g'.chunks other = g.chunks other)
    (chunkListed : ∀ chunk', g'.chunks id = some chunk' → chunk'.FreeListed)
    (pages : ∀ chunk i pfn owner, g.chunks id = some chunk → i < chunkNumPages →
      protects (id * chunkNumPages + i) owner → chunk.aPages i = .priv pfn owner →
      ∃ chunk', g'.chunks id = some chunk' ∧ chunk'.aPages i = .priv pfn owner)
    (vms : ∀ B, B ≠ A → g'.vms B = g.vms B) : Keeps protects A g g' := by
  refine ⟨?_, ?_, vms⟩
  · intro other found there
    by_cases eq : other = id
    · subst eq
      exact chunkListed found there
    · rw [others other eq] at there
      exact listed other found there
  · intro idPage pfn owner safe page
    have number := number_eq idPage
    unfold getPage at page ⊢
    by_cases eq : idPage / chunkNumPages = id
    · rw [eq] at page number ⊢
      obtain ⟨chunk, here, same⟩ := map_eq_some_iff.1 page
      obtain ⟨chunk', there, same'⟩ := pages chunk _ pfn owner here
        (index_lt idPage) (number.symm ▸ safe) same
      rw [there, map_some, same']
    · rwa [others _ eq]

/-- A chunk is replaced by one with the same protected pages. -/
theorem of_chunk (listed : g.Listed) {id : Nat} {chunk : GmmChunk} (chunk' : GmmChunk)
    (here : g.chunks id = some chunk) (chunks : g'.chunks = update g.chunks id (some chunk'))
    (chunkListed : chunk'.FreeListed)
    (pages : ∀ i pfn owner, i < chunkNumPages → protects (id * chunkNumPages + i) owner →
      chunk.aPages i = .priv pfn owner → chunk'.aPages i = .priv pfn owner)
    (vms : ∀ B, B ≠ A → g'.vms B = g.vms B) : Keeps protects A g g' := by
  have there : g'.chunks id = some chunk' := by rw [chunks, update_self]
  refine .of_others listed id ?_ ?_ ?_ vms
  · intro other ne
    rw [chunks, update_of_ne ne]
  · intro found found'
    rw [there] at found'
    exact some.inj found' ▸ chunkListed
  · intro found i pfn owner found' bound safe page
    rw [here] at found'
    cases found'
    exact ⟨chunk', there, pages i pfn owner bound safe page⟩

/-- Linking a chunk keeps its pages. -/
theorem linkChunk (listed : g.Listed) {id : Nat} {chunk : GmmChunk} (pSet : SetId)
    (here : g.chunks id = some chunk) : Keeps anyPage A g (g.linkChunk id chunk pSet) := by
  obtain ⟨set, chunks⟩ := linkChunk_chunks g pSet here
  refine .of_chunk listed { chunk with pSet := set } here chunks (listed id chunk here) ?_ ?_
  · intro i pfn owner _ _ page
    exact page
  · intro B _
    simp

end Keeps

/-- The pages of an allocation that is on its way: distinct private pages of the VM. -/
def Owns (A : Nat) (ids : List Nat) (g : Gmm) : Prop :=
  ids.Nodup ∧ ∀ idPage ∈ ids, ∃ pfn, g.getPage idPage = some (.priv pfn A)

theorem Owns.keeps {ids : List Nat} (owns : Owns A ids g) (keeps : Keeps anyPage A g g') :
    Owns A ids g' := by
  refine ⟨owns.1, ?_⟩
  intro idPage mem
  obtain ⟨pfn, page⟩ := owns.2 idPage mem
  exact ⟨pfn, keeps.pages idPage pfn A trivial page⟩

theorem getPage_at {id i : Nat} {chunk : GmmChunk} (here : g.chunks id = some chunk)
    (bound : i < chunkNumPages) : g.getPage (id * chunkNumPages + i) = some (chunk.aPages i) := by
  have number : (id * chunkNumPages + i) / chunkNumPages = id := by
    rw [Nat.mul_comm, Nat.mul_add_div (by decide), Nat.div_eq_of_lt bound, Nat.add_zero]
  have index : (id * chunkNumPages + i) % chunkNumPages = i := by
    rw [Nat.mul_comm, Nat.mul_add_mod, Nat.mod_eq_of_lt bound]
  rw [getPage, number, index, here, map_some]

/-! ### Taking pages -/

/-- The first page of the free list becomes a private page of the VM. -/
theorem allocatePage_freeListed {chunk : GmmChunk} (listed : chunk.FreeListed)
    (nonempty : chunk.cFree ≠ 0) (hcPhysGCPhys : Nat) :
    (allocatePage chunk A hcPhysGCPhys).1.FreeListed := by
  obtain ⟨bound, iNext, free, pages, fresh, chain, length⟩ := listed.head nonempty
  have le := listed.cFree_le
  refine ⟨pages, ?_, ?_⟩
  · show FreeChain (update chunk.aPages chunk.iFreeHead _) (chunk.aPages chunk.iFreeHead).iNext _
    rw [free]
    exact chain.update_of_notMem _ fresh
  · show pages.length = subW 16 chunk.cFree 1
    unfold subW
    unfold chunkNumPages at le
    omega

theorem allocatePage_taken (handle : A < 2 ^ 16) (chunk : GmmChunk) (hcPhysGCPhys : Nat) :
    ∃ pfn, (allocatePage chunk A hcPhysGCPhys).1.aPages chunk.iFreeHead = .priv pfn A := by
  simp only [allocatePage, update_self, Nat.mod_eq_of_lt handle]
  exact ⟨_, rfl⟩

end Gmm

namespace Pick

open Gmm

variable {A : Nat}

/-- An allocation goes on: it keeps every private page, and owns what it has. -/
structure Grows (A : Nat) (p p' : Pick) : Prop where
  keeps : Keeps anyPage A p.gmm p'.gmm
  owns : Owns A p.ids p.gmm → Owns A p'.ids p'.gmm

namespace Grows

theorem refl {p : Pick} (listed : p.gmm.Listed) : Grows A p p := ⟨.refl listed, id⟩

theorem trans {p p' p'' : Pick} (first : Grows A p p') (second : Grows A p' p'') : Grows A p p'' :=
  ⟨first.keeps.trans second.keeps, second.owns ∘ first.owns⟩

theorem of_keeps {p : Pick} {g : Gmm} {left : List Nat} (keeps : Keeps anyPage A p.gmm g) :
    Grows A p ⟨g, p.ids, left⟩ :=
  ⟨keeps, fun owns => owns.keeps keeps⟩

theorem listed {p p' : Pick} (grows : Grows A p p') : p'.gmm.Listed := grows.keeps.listed

end Grows

/-- One page is taken. -/
theorem grows_allocatePage (handle : A < 2 ^ 16) {g : Gmm} {id : Nat} {chunk : GmmChunk}
    (listed : (g.setChunk id chunk).Listed) (nonempty : chunk.cFree ≠ 0) (hcPhysGCPhys : Nat)
    (ids left left' : List Nat) : Grows A ⟨g.setChunk id chunk, ids, left⟩
      ⟨g.setChunk id (allocatePage chunk A hcPhysGCPhys).1,
        ids ++ [id * chunkNumPages + (allocatePage chunk A hcPhysGCPhys).2], left'⟩ := by
  have here : (g.setChunk id chunk).chunks id = some chunk := update_self ..
  have there : (g.setChunk id (allocatePage chunk A hcPhysGCPhys).1).chunks id =
    some (allocatePage chunk A hcPhysGCPhys).1 := update_self ..
  have chunkListed := listed id chunk here
  obtain ⟨bound, iNext, free, -⟩ := chunkListed.head nonempty
  have keeps : Keeps anyPage A (g.setChunk id chunk)
      (g.setChunk id (allocatePage chunk A hcPhysGCPhys).1) := by
    refine .of_chunk listed (allocatePage chunk A hcPhysGCPhys).1 here
      (update_idem ..).symm (allocatePage_freeListed chunkListed nonempty hcPhysGCPhys) ?_ ?_
    · intro i pfn owner _ _ page
      have ne : i ≠ chunk.iFreeHead := by
        rintro rfl
        rw [free] at page
        cases page
      show update chunk.aPages chunk.iFreeHead _ i = _
      rw [update_of_ne ne, page]
    · intro B _
      rfl
  refine ⟨keeps, ?_⟩
  intro owns
  obtain ⟨nodup, owned⟩ := owns.keeps keeps
  have fresh : id * chunkNumPages + chunk.iFreeHead ∉ ids := by
    intro mem
    obtain ⟨pfn, page⟩ := owns.2 _ mem
    rw [getPage_at here bound, free] at page
    cases page
  refine ⟨?_, ?_⟩
  · exact List.nodup_append.2 ⟨nodup, List.nodup_singleton _, by
      intro a memA b memB
      rintro rfl
      exact fresh (List.mem_singleton.1 memB ▸ memA)⟩
  · intro idPage mem
    rcases List.mem_append.1 mem with mem | mem
    · exact owned idPage mem
    · rw [List.mem_singleton.1 mem]
      obtain ⟨pfn, taken⟩ := allocatePage_taken handle chunk hcPhysGCPhys
      exact ⟨pfn, (getPage_at there bound).trans (congrArg some taken)⟩

/-- The loop over a chunk, page by page. -/
theorem grows_takePages (handle : A < 2 ^ 16) {g : Gmm} {id : Nat} (ids left : List Nat)
    {chunk : GmmChunk} (listed : (g.setChunk id chunk).Listed) :
    Grows A ⟨g.setChunk id chunk, ids, left⟩
      ⟨g.setChunk id (takePages A id ids left chunk).1, (takePages A id ids left chunk).2.1,
        (takePages A id ids left chunk).2.2⟩ := by
  induction left generalizing ids chunk with
  | nil => exact .refl listed
  | cons hcPhysGCPhys left ih =>
    unfold takePages
    split
    · exact .refl listed
    · rename_i nonempty
      have step := grows_allocatePage handle listed nonempty hcPhysGCPhys ids
        (hcPhysGCPhys :: left) left
      exact step.trans (ih _ step.listed)

/-- `gmmR0AllocatePagesFromChunk`, of a chunk as the tree has it but for its owner. -/
theorem grows_allocatePagesFromChunk (hGVM : Nat) (handle : A < 2 ^ 16) {p : Pick}
    (listed : p.gmm.Listed) {id : Nat} {chunk : GmmChunk} (here : p.gmm.chunks id = some chunk) :
    Grows A p (allocatePagesFromChunk A id { chunk with hGVM := hGVM } p) := by
  set unlinked := p.gmm.unlinkChunk id { chunk with hGVM := hGVM } with unlinkedDef
  set alone : GmmChunk := { chunk with hGVM := hGVM, pSet := none } with aloneDef
  have first : Grows A p ⟨unlinked.setChunk id alone, p.ids, p.left⟩ := by
    refine .of_keeps (.of_chunk listed alone here ?_ (listed id chunk here) ?_ ?_)
    · simp [unlinkedDef]
    · intro i pfn owner _ _ page
      exact page
    · intro B _
      simp [unlinkedDef]
  have taken := first.trans (grows_takePages handle p.ids p.left first.listed)
  unfold allocatePagesFromChunk
  simp only
  split
  · rename_i pSet _
    exact taken.trans (.of_keeps (.linkChunk taken.listed pSet (update_self ..)))
  · exact taken

/-- Whichever way the pages are picked, no private page is touched. -/
theorem growsRule (handle : A < 2 ^ 16) : PickRule A fun p p' => p.gmm.Listed → Grows A p p' where
  refl _ listed := .refl listed
  trans first second listed :=
    have grows := first listed
    grows.trans (second grows.listed)
  chunk _ _ owner _ here listed := grows_allocatePagesFromChunk owner handle listed here
  hint p id listed := by
    refine .of_keeps (.of_chunks listed rfl ?_)
    intro B other
    simp [other]

end Pick

namespace Gmm

variable {protects : Nat → Nat → Prop} {A idPage : Nat} {g : Gmm}

/-! ### New chunks -/

@[simp] theorem allocateChunkId_chunks : g.allocateChunkId.1.chunks = g.chunks := by
  unfold allocateChunkId
  simp only
  split <;> rfl

@[simp] theorem allocateChunkId_vms : g.allocateChunkId.1.vms = g.vms := by
  unfold allocateChunkId
  simp only
  split <;> rfl

/-- A chunk is registered under an id that no chunk has. -/
theorem keeps_registerChunk (listed : g.Listed) (pSet : SetId) (hGVM : Nat) :
    Keeps anyPage A g (g.registerChunk pSet hGVM).1 := by
  have numbered : Keeps anyPage A g g.allocateChunkId.1 :=
    .of_chunks listed allocateChunkId_chunks fun B _ => by rw [allocateChunkId_vms]
  unfold registerChunk
  simp only
  split
  · exact numbered
  · cases fresh : g.allocateChunkId.1.chunks g.allocateChunkId.2 with
    | some chunk => exact numbered
    | none =>
      simp only
      set id := g.allocateChunkId.2
      have inserted : Keeps anyPage A g.allocateChunkId.1
          (g.allocateChunkId.1.setChunk id (newChunk hGVM)) := by
        refine .of_others numbered.listed id (fun other ne => update_of_ne ne ..) ?_ ?_
          (fun _ _ => rfl)
        · intro chunk here
          rw [setChunk_chunks, update_self] at here
          exact some.inj here ▸ GmmChunk.newChunk_freeListed hGVM
        · intro chunk i pfn owner here
          rw [fresh] at here
          cases here
      exact (numbered.trans inserted).trans (.linkChunk inserted.listed pSet (update_self ..))

/-! ### Freeing -/

/-- A chunk without private pages may be freed. -/
theorem keeps_freeChunk (listed : g.Listed) {id : Nat} {chunk : GmmChunk}
    (here : g.chunks id = some chunk) (unused : ∀ i pfn owner, i < chunkNumPages →
      protects (id * chunkNumPages + i) owner → chunk.aPages i ≠ .priv pfn owner) :
    Keeps protects A g (g.freeChunk id chunk) := by
  unfold freeChunk
  split
  · exact .refl listed
  · refine .of_others listed id ?_ ?_ ?_ ?_
    · intro other ne
      simp [ne, unlinkChunk_chunks_of_ne]
    · intro chunk' there
      simp at there
    · intro found i pfn owner found' bound safe page
      rw [here] at found'
      cases found'
      exact absurd page (unused i pfn owner bound safe)
    · intro B _
      simp

theorem keeps_giveBack (listed : g.Listed) (id : Nat) : Keeps anyPage A g (g.giveBack id) := by
  unfold giveBack
  cases here : g.chunks id with
  | none => exact .refl listed
  | some chunk =>
    simp only
    split
    · rename_i empty
      apply keeps_freeChunk listed here
      intro i pfn owner bound _ page
      obtain ⟨iNext, free⟩ := (listed id chunk here).free_of_full empty.1 bound
      rw [free] at page
      cases page
    · exact .refl listed

/-- Freeing a page that is in use keeps all the other ones. -/
theorem keeps_freePageWorker (listed : g.Listed) {id iPage : Nat}
    (cPrivate cShared : Nat) {chunk : GmmChunk} (here : g.chunks id = some chunk) (bound : iPage < chunkNumPages)
    (used : ∀ iNext, chunk.aPages iPage ≠ .free iNext) :
    Keeps (pageBut (id * chunkNumPages + iPage)) A g
      (g.freePageWorker A id iPage { chunk with cPrivate := cPrivate, cShared := cShared }) := by
  obtain ⟨room, pages, chain, length⟩ := (listed id chunk here).push bound used
  set freed : GmmChunk := { chunk with
    cPrivate := cPrivate
    cShared := cShared
    aPages := update chunk.aPages iPage (.free chunk.iFreeHead)
    iFreeHead := iPage } with freedDef
  obtain ⟨set, chunks⟩ := countFreed_chunks (g.setChunk id freed) A id freed
  have counted : Keeps (pageBut (id * chunkNumPages + iPage)) A g
      ((g.setChunk id freed).countFreed A id freed) := by
    refine .of_chunk listed { freed with cFree := addW 16 chunk.cFree 1, pSet := set } here ?_ ?_
      ?_ ?_
    · rw [chunks, setChunk_chunks, update_idem]
    · refine ⟨pages, chain, ?_⟩
      show pages.length = addW 16 chunk.cFree 1
      unfold addW
      unfold chunkNumPages at room
      omega
    · intro i pfn owner _ other page
      have ne : i ≠ iPage := by
        rintro rfl
        exact other rfl
      show update chunk.aPages iPage _ i = _
      rw [update_of_ne ne, page]
    · intro B _
      simp
  exact counted.trans (keeps_giveBack counted.listed id).of_any

/-- The same when counters of the whole have been lowered before. -/
theorem keeps_freePage {counted : Gmm} (before : Keeps (pageBut idPage) A g counted)
    (chunks : counted.chunks = g.chunks) (cPrivate cShared : Nat) {chunk : GmmChunk}
    {page : GmmPage} (here : g.chunks (idPage / chunkNumPages) = some chunk)
    (found : g.getPage idPage = some page) (used : ∀ iNext, page ≠ .free iNext) :
    Keeps (pageBut idPage) A g (counted.freePageWorker A (idPage / chunkNumPages)
      (idPage % chunkNumPages) { chunk with cPrivate := cPrivate, cShared := cShared }) := by
  have inUse : ∀ iNext, chunk.aPages (idPage % chunkNumPages) ≠ .free iNext := by
    intro iNext free
    rw [getPage, here, map_some, free] at found
    exact used iNext (some.inj found).symm
  have freed := keeps_freePageWorker (A := A) before.listed cPrivate cShared (chunks ▸ here)
    (index_lt idPage) inUse
  rw [number_eq] at freed
  exact before.trans freed

section

variable (listed : g.Listed) {page : GmmPage} (found : g.getPage idPage = some page)
  (used : ∀ iNext, page ≠ .free iNext)

include listed found used

theorem keeps_freePrivatePage : Keeps (pageBut idPage) A g (g.freePrivatePage A idPage) := by
  unfold freePrivatePage
  split
  · exact .refl listed
  · rename_i chunk here
    have chunks := setAllocatedPages_chunks g (subW 64 g.cAllocatedPages 1)
    exact keeps_freePage (.of_chunks listed chunks fun _ _ => by rw [setAllocatedPages_vms])
      chunks _ _ here found used

theorem keeps_freeSharedPage : Keeps (pageBut idPage) A g (g.freeSharedPage A idPage) := by
  have lowered (m n : Nat) : Keeps (pageBut idPage) A g
      ((g.setAllocatedPages m).setSharedPages n) := by
    refine .of_chunks listed ?_ ?_
    · rw [setSharedPages_chunks, setAllocatedPages_chunks]
    · intro B _
      rw [setSharedPages_vms, setAllocatedPages_vms]
  unfold freeSharedPage
  split
  · exact .refl listed
  · rename_i chunk here
    exact keeps_freePage (lowered _ _)
      (by rw [setSharedPages_chunks, setAllocatedPages_chunks]) _ _ here found used

end

/-! ### Single pages -/

theorem setPage_getPage {page : GmmPage} (found : g.getPage idPage = some page)
    (page' : GmmPage) : (g.setPage idPage page').getPage idPage = some page' := by
  obtain ⟨chunk, here, -⟩ := map_eq_some_iff.1 found
  simp [setPage, getPage, here]

/-- A page in use is replaced by another one. -/
theorem keeps_setPage (listed : g.Listed) {page : GmmPage} (found : g.getPage idPage = some page)
    (used : ∀ iNext, page ≠ .free iNext) (page' : GmmPage) :
    Keeps (pageBut idPage) A g (g.setPage idPage page') := by
  obtain ⟨chunk, here, same⟩ := map_eq_some_iff.1 found
  obtain ⟨pages, chain, length⟩ := listed _ chunk here
  have off : idPage % chunkNumPages ∉ pages := by
    intro mem
    obtain ⟨iNext, free⟩ := chain.free _ mem
    exact used iNext (same.symm.trans free)
  unfold setPage
  rw [here]
  refine .of_chunk listed _ here rfl ⟨pages, chain.update_of_notMem page' off, length⟩ ?_
    (fun _ _ => rfl)
  intro i pfn owner _ other page
  have ne : i ≠ idPage % chunkNumPages := by
    rintro rfl
    exact other (number_eq idPage)
  show update chunk.aPages _ page' i = _
  rw [update_of_ne ne, page]

/-- A reference to a shared page is dropped, and the page with the last one. -/
theorem keeps_releaseSharedPage (listed : g.Listed) {pfn cRefs : Nat}
    (found : g.getPage idPage = some (.shared pfn cRefs)) :
    Keeps anyPage A g (g.releaseSharedPage A idPage pfn cRefs) := by
  have notPrivate : ∀ pfn owner, g.getPage idPage ≠ some (.priv pfn owner) := by
    intro pfn owner page
    rw [found] at page
    cases page
  have uncounted (vm : GmmPerVm) : Keeps (pageBut idPage) A g (g.setVm A vm) := by
    refine .of_chunks listed rfl ?_
    intro B other
    simp [other]
  unfold releaseSharedPage
  simp only
  generalize { g.vms A with cSharedPages := subW 64 (g.vms A).cSharedPages 1 } = vm
  have dropped := (uncounted vm).trans (keeps_setPage (A := A) (uncounted vm).listed found
    (by simp) (.shared pfn (subW 16 cRefs 1)))
  have there := setPage_getPage (g := g.setVm A vm) found (.shared pfn (subW 16 cRefs 1))
  generalize (g.setVm A vm).setPage idPage (.shared pfn (subW 16 cRefs 1)) = g' at dropped there ⊢
  apply Keeps.of_notPrivate ?_ notPrivate
  split
  · exact dropped.trans (keeps_freeSharedPage dropped.listed there (by simp))
  · exact dropped.trans (.of_chunks dropped.listed (setDuplicatePages_chunks g' _) fun _ _ => by simp)

end Gmm

end VBox.Vmm
