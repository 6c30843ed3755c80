import VBox.Vmm.Gmm.Picking
import Mathlib.Tactic.Ring

/-!
What the sections do to the counters that have a limit.

Taking pages from chunks and freeing them leaves the accounts alone; freeing takes pages off
the total one by one. `Spends n` says that of an operation that frees up to `n` pages.
-/

namespace VBox.Vmm

open Function (update)

/-- The accounts of a VM are the same. -/
structure GmmPerVm.SameAccounts (vm vm' : GmmPerVm) : Prop where
  reserved : vm'.reserved = vm.reserved
  allocated : vm'.allocated = vm.allocated
  cBalloonedPages : vm'.cBalloonedPages = vm.cBalloonedPages

theorem GmmPerVm.SameAccounts.refl (vm : GmmPerVm) : vm.SameAccounts vm := ⟨rfl, rfl, rfl⟩

theorem GmmPerVm.SameAccounts.trans {vm vm' vm'' : GmmPerVm} (first : vm.SameAccounts vm')
    (second : vm'.SameAccounts vm'') : vm.SameAccounts vm'' :=
  ⟨second.reserved.trans first.reserved, second.allocated.trans first.allocated,
    second.cBalloonedPages.trans first.cBalloonedPages⟩

theorem subW_of_le {w a b : Nat} (fits : a < 2 ^ w) (le : b ≤ a) : subW w a b = a - b := by
  have eq : a + 2 ^ w - b = a - b + 2 ^ w := by omega
  rw [subW, eq, Nat.add_mod_right, Nat.mod_eq_of_lt (by omega)]

theorem addW_of_lt {w a b : Nat} (fits : a + b < 2 ^ w) : addW w a b = a + b :=
  Nat.mod_eq_of_lt fits

namespace Gmm

variable {g g' g'' : Gmm} {m n hGVM : Nat}

/-- No account changes, and the total goes down by `n` pages at most. -/
structure Spends (n : Nat) (g g' : Gmm) : Prop where
  max : g'.cMaxPages = g.cMaxPages
  accounts : ∀ B, (g.vms B).SameAccounts (g'.vms B)
  total : g.cAllocatedPages < 2 ^ 64 → n ≤ g.cAllocatedPages →
    g'.cAllocatedPages ≤ g.cAllocatedPages ∧ g.cAllocatedPages ≤ g'.cAllocatedPages + n

namespace Spends

theorem of_same (max : g'.cMaxPages = g.cMaxPages) (vms : g'.vms = g.vms)
    (total : g'.cAllocatedPages = g.cAllocatedPages) : Spends 0 g g' := by
  refine ⟨max, ?_, ?_⟩
  · intro B
    rw [vms]
    exact .refl _
  · intro _ _
    rw [total]
    exact ⟨le_refl _, le_refl _⟩

theorem refl (g : Gmm) : Spends 0 g g := .of_same rfl rfl rfl

theorem trans (first : Spends m g g') (second : Spends n g' g'') : Spends (m + n) g g'' := by
  refine ⟨second.max.trans first.max, ?_, ?_⟩
  · intro B
    exact (first.accounts B).trans (second.accounts B)
  · intro fits enough
    obtain ⟨le, ge⟩ := first.total fits (by omega)
    obtain ⟨le', ge'⟩ := second.total (by omega) (by omega)
    exact ⟨by omega, by omega⟩

theorem mono (spends : Spends m g g') (le : m ≤ n) : Spends n g g' := by
  refine ⟨spends.max, spends.accounts, ?_⟩
  intro fits enough
  obtain ⟨below, above⟩ := spends.total fits (by omega)
  exact ⟨below, by omega⟩

/-- One operation more that spends nothing. -/
theorem step (first : Spends n g g') (second : Spends 0 g' g'') : Spends n g g'' :=
  first.trans second

/-- Nothing is spent before. -/
theorem after (first : Spends 0 g g') (second : Spends n g' g'') : Spends n g g'' :=
  (first.trans second).mono (le_of_eq (Nat.zero_add n))

end Spends

/-! ### Chunks -/

theorem spends_setVm (vm : GmmPerVm) (same : (g.vms hGVM).SameAccounts vm) :
    Spends 0 g (g.setVm hGVM vm) := by
  refine ⟨rfl, ?_, fun _ _ => ⟨le_refl _, le_refl _⟩⟩
  intro B
  by_cases eq : B = hGVM
  · subst eq
    simpa using same
  · simpa [eq] using .refl _

/-- Counters of a VM without a limit, and its hint. -/
theorem spends_setCounts (g : Gmm) (hGVM cPrivatePages cSharedPages idLastChunkHint : Nat) :
    Spends 0 g (g.setVm hGVM
      { g.vms hGVM with cPrivatePages, cSharedPages, idLastChunkHint }) :=
  spends_setVm _ ⟨rfl, rfl, rfl⟩

theorem spends_setChunk (g : Gmm) (id : Nat) (chunk : GmmChunk) :
    Spends 0 g (g.setChunk id chunk) := .of_same rfl rfl rfl

theorem spends_unlinkChunk (g : Gmm) (id : Nat) (chunk : GmmChunk) :
    Spends 0 g (g.unlinkChunk id chunk) := by
  unfold unlinkChunk
  split
  · exact .refl g
  · exact .of_same rfl rfl rfl

theorem spends_linkChunk (g : Gmm) (id : Nat) (chunk : GmmChunk) (pSet : SetId) :
    Spends 0 g (g.linkChunk id chunk pSet) := by
  unfold linkChunk
  split
  · exact .of_same rfl rfl rfl
  · exact .refl g

theorem spends_allocatePagesFromChunk (hGVM : Nat) (p : Pick) (id : Nat) (chunk : GmmChunk) :
    Spends 0 p.gmm (p.allocatePagesFromChunk hGVM id chunk).gmm := by
  have taken := (spends_unlinkChunk p.gmm id chunk).step (spends_setChunk _ id
    (Pick.takePages hGVM id p.ids p.left { chunk with pSet := none }).1)
  unfold Pick.allocatePagesFromChunk
  simp only
  split
  · exact taken.step (spends_linkChunk _ id _ _)
  · exact taken

theorem spendsRule (hGVM : Nat) : PickRule hGVM fun p p' => Spends 0 p.gmm p'.gmm where
  refl p := .refl p.gmm
  trans first second := first.step second
  chunk p id _ _ _ := spends_allocatePagesFromChunk hGVM p id _
  hint p _ := spends_setCounts p.gmm _ _ _ _

theorem spends_allocateChunkId (g : Gmm) : Spends 0 g g.allocateChunkId.1 := by
  unfold allocateChunkId
  simp only
  split <;> exact .of_same rfl rfl rfl

theorem spends_registerChunk (g : Gmm) (pSet : SetId) (hGVM : Nat) :
    Spends 0 g (g.registerChunk pSet hGVM).1 := by
  have numbered := spends_allocateChunkId g
  unfold registerChunk
  simp only
  split
  · exact numbered
  · split
    · exact numbered
    · apply (numbered.step (spends_setChunk _ g.allocateChunkId.2 (newChunk hGVM))).step
      simp only
      exact spends_linkChunk _ _ _ _

/-! ### Freeing -/

theorem spends_freeChunk (g : Gmm) (id : Nat) (chunk : GmmChunk) :
    Spends 0 g (g.freeChunk id chunk) := by
  unfold freeChunk
  split
  · exact .refl g
  · exact (spends_unlinkChunk g id chunk).step (.of_same rfl rfl rfl)

theorem spends_countFreed (g : Gmm) (hGVM id : Nat) (chunk : GmmChunk) :
    Spends 0 g (g.countFreed hGVM id chunk) := by
  unfold countFreed
  simp only
  split
  · exact ((spends_unlinkChunk g id chunk).step (spends_setChunk _ _ _)).step
      (spends_linkChunk _ _ _ _)
  · split <;> exact .of_same rfl rfl rfl

theorem spends_freePageWorker (g : Gmm) (hGVM id iPage : Nat) (chunk : GmmChunk) :
    Spends 0 g (g.freePageWorker hGVM id iPage chunk) := by
  have counted := (spends_setChunk g id { chunk with
    aPages := update chunk.aPages iPage (.free chunk.iFreeHead)
    iFreeHead := iPage }).step (spends_countFreed _ hGVM id { chunk with
    aPages := update chunk.aPages iPage (.free chunk.iFreeHead)
    iFreeHead := iPage })
  unfold freePageWorker giveBack
  simp only
  split
  · exact counted
  · split
    · exact counted.step (spends_freeChunk _ _ _)
    · exact counted

theorem spends_setAllocatedPages (g : Gmm) (n : Nat) :
    Spends n g (g.setAllocatedPages (subW 64 g.cAllocatedPages n)) := by
  refine ⟨setAllocatedPages_cMaxPages g _, ?_, ?_⟩
  · intro B
    rw [setAllocatedPages_vms]
    exact .refl _
  · intro fits enough
    rw [setAllocatedPages_cAllocatedPages, subW_of_le fits enough]
    omega

theorem spends_setSharedPages (g : Gmm) (n : Nat) : Spends 0 g (g.setSharedPages n) :=
  .of_same rfl rfl rfl

theorem spends_setDuplicatePages (g : Gmm) (n : Nat) : Spends 0 g (g.setDuplicatePages n) :=
  .of_same rfl rfl rfl

theorem spends_freePrivatePage (g : Gmm) (hGVM idPage : Nat) :
    Spends 1 g (g.freePrivatePage hGVM idPage) := by
  unfold freePrivatePage
  split
  · exact (Spends.refl g).mono (Nat.zero_le 1)
  · apply (spends_setAllocatedPages g 1).step
    exact spends_freePageWorker _ _ _ _ _

theorem spends_freeSharedPage (g : Gmm) (hGVM idPage : Nat) :
    Spends 1 g (g.freeSharedPage hGVM idPage) := by
  unfold freeSharedPage
  split
  · exact (Spends.refl g).mono (Nat.zero_le 1)
  · apply ((spends_setAllocatedPages g 1).step (spends_setSharedPages _ _)).step
    exact spends_freePageWorker _ _ _ _ _

theorem spends_setPage (g : Gmm) (idPage : Nat) (page : GmmPage) :
    Spends 0 g (g.setPage idPage page) := by
  unfold setPage
  split
  · exact .refl g
  · exact spends_setChunk g _ _

theorem spends_releaseSharedPage (g : Gmm) (hGVM idPage pfn cRefs : Nat) :
    Spends 1 g (g.releaseSharedPage hGVM idPage pfn cRefs) := by
  unfold releaseSharedPage
  simp only
  apply Spends.after (spends_setCounts g hGVM _ _ _)
  apply Spends.after (spends_setPage _ idPage (.shared pfn (subW 16 cRefs 1)))
  split
  · exact spends_freeSharedPage _ _ _
  · exact (spends_setDuplicatePages _ _).mono (Nat.zero_le 1)

theorem spends_releasePages (hGVM : Nat) (ids : List Nat) (g : Gmm) :
    Spends ids.length g (releasePages hGVM ids g) := by
  induction ids generalizing g with
  | nil => exact .refl g
  | cons idPage ids ih =>
    unfold releasePages
    rw [List.length_cons, Nat.add_comm]
    split
    · exact (spends_freePrivatePage g hGVM idPage).trans (ih _)
    · exact (ih g).mono (Nat.le_add_left _ _)

theorem spends_setPrivatePages (g : Gmm) (hGVM n : Nat) : Spends 0 g (g.setPrivatePages hGVM n) :=
  spends_setCounts g hGVM _ _ _

/-- Freeing pages takes each of them off the total at most once. -/
theorem spends_freeLoop (hGVM : Nat) (ids : List Nat) (iPage : Nat) (g : Gmm) :
    Spends ids.length g (freeLoop hGVM ids iPage g).1 ∧
      (freeLoop hGVM ids iPage g).2.1 ≤ iPage + ids.length := by
  induction ids generalizing g iPage with
  | nil => exact ⟨.refl g, le_refl _⟩
  | cons idPage ids ih =>
    have stopped : Spends (idPage :: ids).length g g ∧ iPage ≤ iPage + (idPage :: ids).length :=
      ⟨(Spends.refl g).mono (Nat.zero_le _), Nat.le_add_right _ _⟩
    unfold freeLoop
    split
    · exact stopped
    · split
      · have counted := spends_setPrivatePages g hGVM (subW 64 (g.vms hGVM).cPrivatePages 1)
        have freed := counted.after (spends_freePrivatePage _ hGVM idPage)
        obtain ⟨rest, le⟩ := ih (iPage + 1) ((g.setPrivatePages hGVM
          (subW 64 (g.vms hGVM).cPrivatePages 1)).freePrivatePage hGVM idPage)
        refine ⟨(freed.trans rest).mono ?_, ?_⟩
        · rw [List.length_cons, Nat.add_comm]
        · rw [List.length_cons]
          omega
      · exact stopped
    · rename_i pfn cRefs _
      obtain ⟨rest, le⟩ := ih (iPage + 1) (g.releaseSharedPage hGVM idPage pfn cRefs)
      refine ⟨((spends_releaseSharedPage g hGVM idPage pfn cRefs).trans rest).mono ?_, ?_⟩
      · rw [List.length_cons, Nat.add_comm]
      · rw [List.length_cons]
        omega
    · exact stopped

end Gmm

end VBox.Vmm
