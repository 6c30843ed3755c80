import Mathlib.Algebra.GroupWithZero.Nat
import Mathlib.Logic.Function.Basic

/-!
The global memory manager: chunks of pages, the lists of chunks with free pages, and the
accounts of the VMs.

A free list is the list of its chunk ids. `gmmR0GetCurrentNumaNodeId` is constant, so that
every chunk is on the same node; the chunk TLB, statistics and host physical addresses are
left out.
-/

namespace VBox.Vmm

open Function

/-- `a - b` on unsigned numbers of `w` bits. -/
def subW (w a b : Nat) : Nat := (a + 2 ^ w - b) % 2 ^ w

def addW (w a b : Nat) : Nat := (a + b) % 2 ^ w

/-! ### Pages and chunks -/

/-- `GMM_CHUNK_NUM_PAGES` -/
def chunkNumPages : Nat := 512

/-- `GMM_CHUNKID_LAST` -/
def chunkIdLast : Nat := 524287

def pageIdLast : Nat := 268435455

/-- `GMM_GCPHYS_LAST` -/
def gcPhysLast : Nat := 0x00000fffffff0000

def gcPhysUnshareable : Nat := 0x00000fffffff1000

def nilHCPhys : Nat := 0xffffffffffffffff

def pfnUnshareable : Nat := 0xfffffff1

/-- `GMMPAGE` by its state, on a 64-bit host. -/
inductive GmmPage where
  | priv (pfn hGVM : Nat)
  | shared (pfn cRefs : Nat)
  | free (iNext : Nat)
  deriving DecidableEq

/-- `Free.iNext` of the union, whatever the state. -/
def GmmPage.iNext : GmmPage → Nat
  | .priv pfn _ => pfn % 2 ^ 16
  | .shared pfn _ => pfn % 2 ^ 16
  | .free iNext => iNext

/-- The free sets: the two of the GMM, and one for each VM in bound mode. -/
inductive SetId where
  | privateX
  | shared
  | vm (hGVM : Nat)
  deriving DecidableEq

structure GmmChunk where
  pSet : Option SetId
  cMappingsX : Nat
  iFreeHead : Nat
  cFree : Nat
  hGVM : Nat
  cPrivate : Nat
  cShared : Nat
  aPages : Nat → GmmPage

/-- `GMMCHUNKFREESET` -/
structure FreeSet where
  cFreePages : Nat
  apLists : Nat → List Nat

inductive GmmAccount where
  | base
  | shadow
  | fixed
  deriving DecidableEq

/-- The bits of an account's counter. -/
def GmmAccount.width : GmmAccount → Nat
  | .base => 64
  | _ => 32

/-- `GMMPERVM` -/
structure GmmPerVm where
  reserved : GmmAccount → Nat
  allocated : GmmAccount → Nat
  cPrivatePages : Nat
  cSharedPages : Nat
  cBalloonedPages : Nat
  idLastChunkHint : Nat

/-- The ballooned pages count with the base account. -/
def GmmPerVm.cBallooned (vm : GmmPerVm) : GmmAccount → Nat
  | .base => vm.cBalloonedPages
  | _ => 0

structure Gmm where
  chunks : Nat → Option GmmChunk
  bmChunkId : Nat → Bool
  idChunkPrev : Nat
  sets : SetId → FreeSet
  vms : Nat → GmmPerVm
  cMaxPages : Nat
  cAllocatedPages : Nat
  cSharedPages : Nat
  cDuplicatePages : Nat
  cBalloonedPages : Nat
  fLegacyAllocationMode : Bool
  fBoundMemoryMode : Bool

inductive GmmRc where
  | success
  | hitGlobalLimit
  | hitVmAccountLimit
  | seedMe
  | noMemory
  | noPhysMemory
  | chunkInsert
  | allocPagesIpe
  | hostFailure
  | wrongOrder
  | invalidParameter
  | notSupported
  | pageNotFound
  | pageNotPrivate
  | pageNotShared
  | notPageOwner
  | pageAlreadyFree
  | attemptToFreeTooMuch
  | attemptToDeflateTooMuch
  deriving DecidableEq

namespace Gmm

variable (g : Gmm)

def setChunk (id : Nat) (chunk : GmmChunk) : Gmm :=
  { g with chunks := Function.update g.chunks id (some chunk) }

def setSet (pSet : SetId) (set : FreeSet) : Gmm :=
  { g with sets := Function.update g.sets pSet set }

def setVm (hGVM : Nat) (vm : GmmPerVm) : Gmm :=
  { g with vms := Function.update g.vms hGVM vm }

theorem index_lt (idPage : Nat) : idPage % chunkNumPages < chunkNumPages :=
  Nat.mod_lt idPage (by decide)

theorem number_eq (idPage : Nat) :
    idPage / chunkNumPages * chunkNumPages + idPage % chunkNumPages = idPage :=
  Nat.div_add_mod' idPage chunkNumPages

/-- `gmmR0GetPage` -/
def getPage (idPage : Nat) : Option GmmPage :=
  (g.chunks (idPage / chunkNumPages)).map (·.aPages (idPage % chunkNumPages))

def setPage (idPage : Nat) (page : GmmPage) : Gmm :=
  match g.chunks (idPage / chunkNumPages) with
  | none => g
  | some chunk => g.setChunk (idPage / chunkNumPages)
      { chunk with aPages := Function.update chunk.aPages (idPage % chunkNumPages) page }

def setAllocatedPages (cAllocatedPages : Nat) : Gmm := { g with cAllocatedPages }

def setSharedPages (cSharedPages : Nat) : Gmm := { g with cSharedPages }

def setDuplicatePages (cDuplicatePages : Nat) : Gmm := { g with cDuplicatePages }

@[simp] theorem setDuplicatePages_chunks (n : Nat) : (g.setDuplicatePages n).chunks = g.chunks := rfl

@[simp] theorem setDuplicatePages_vms (n : Nat) : (g.setDuplicatePages n).vms = g.vms := rfl

@[simp] theorem setAllocatedPages_chunks (n : Nat) : (g.setAllocatedPages n).chunks = g.chunks := rfl

@[simp] theorem setAllocatedPages_vms (n : Nat) : (g.setAllocatedPages n).vms = g.vms := rfl

@[simp] theorem setAllocatedPages_cMaxPages (n : Nat) :
    (g.setAllocatedPages n).cMaxPages = g.cMaxPages := rfl

@[simp] theorem setAllocatedPages_cAllocatedPages (n : Nat) :
    (g.setAllocatedPages n).cAllocatedPages = n := rfl

@[simp] theorem setSharedPages_chunks (n : Nat) : (g.setSharedPages n).chunks = g.chunks := rfl

@[simp] theorem setSharedPages_vms (n : Nat) : (g.setSharedPages n).vms = g.vms := rfl

@[simp] theorem setChunk_chunks (id : Nat) (chunk : GmmChunk) :
    (g.setChunk id chunk).chunks = update g.chunks id (some chunk) := rfl

@[simp] theorem setChunk_vms (id : Nat) (chunk : GmmChunk) : (g.setChunk id chunk).vms = g.vms := rfl

@[simp] theorem setSet_chunks (pSet : SetId) (set : FreeSet) :
    (g.setSet pSet set).chunks = g.chunks := rfl

@[simp] theorem setSet_vms (pSet : SetId) (set : FreeSet) : (g.setSet pSet set).vms = g.vms := rfl

@[simp] theorem setVm_chunks (hGVM : Nat) (vm : GmmPerVm) : (g.setVm hGVM vm).chunks = g.chunks := rfl

@[simp] theorem setVm_vms (hGVM : Nat) (vm : GmmPerVm) :
    (g.setVm hGVM vm).vms = update g.vms hGVM vm := rfl

/-! ### Free lists -/

/-- `gmmR0SelectFreeSetList` -/
def selectFreeSetList (cFree : Nat) : Nat := cFree / 16

/-- `GMM_CHUNK_FREE_SET_UNUSED_LIST` -/
def unusedList : Nat := 32

def unlinkChunk (id : Nat) (chunk : GmmChunk) : Gmm :=
  match chunk.pSet with
  | none => g
  | some pSet =>
      let set := g.sets pSet
      (g.setSet pSet { set with
        cFreePages := subW 64 set.cFreePages chunk.cFree
        apLists := fun i => (set.apLists i).erase id }).setChunk id { chunk with pSet := none }

@[simp] theorem unlinkChunk_vms (id : Nat) (chunk : GmmChunk) :
    (g.unlinkChunk id chunk).vms = g.vms := by
  unfold unlinkChunk
  split <;> rfl

theorem unlinkChunk_chunks_of_ne (chunk : GmmChunk) {id other : Nat} (ne : other ≠ id) :
    (g.unlinkChunk id chunk).chunks other = g.chunks other := by
  unfold unlinkChunk
  split <;> simp [ne]

@[simp] theorem unlinkChunk_setChunk_chunks (id : Nat) (chunk after : GmmChunk) :
    update (g.unlinkChunk id chunk).chunks id (some after) = update g.chunks id (some after) := by
  unfold unlinkChunk
  split <;> simp

def linkChunk (id : Nat) (chunk : GmmChunk) (pSet : SetId) : Gmm :=
  if 0 < chunk.cFree then
    let set := g.sets pSet
    let iList := selectFreeSetList chunk.cFree
    (g.setSet pSet { set with
      cFreePages := addW 64 set.cFreePages chunk.cFree
      apLists := Function.update set.apLists iList (id :: set.apLists iList) }).setChunk id
        { chunk with pSet := some pSet }
  else g

@[simp] theorem linkChunk_vms (id : Nat) (chunk : GmmChunk) (pSet : SetId) :
    (g.linkChunk id chunk pSet).vms = g.vms := by
  unfold linkChunk
  split <;> rfl

/-- Linking a chunk changes its set at most. -/
theorem linkChunk_chunks {id : Nat} {chunk : GmmChunk} (pSet : SetId)
    (here : g.chunks id = some chunk) : ∃ set, (g.linkChunk id chunk pSet).chunks =
      update g.chunks id (some { chunk with pSet := set }) := by
  unfold linkChunk
  split
  · exact ⟨some pSet, rfl⟩
  · exact ⟨chunk.pSet, (update_eq_self_iff.2 here.symm).symm⟩

def selectSetAndLinkChunk (hGVM id : Nat) (chunk : GmmChunk) : Gmm :=
  g.linkChunk id chunk
    (if g.fBoundMemoryMode then .vm hGVM else if chunk.cShared ≠ 0 then .shared else .privateX)

theorem selectSetAndLinkChunk_chunks (hGVM : Nat) {id : Nat} {chunk : GmmChunk}
    (here : g.chunks id = some chunk) : ∃ set, (g.selectSetAndLinkChunk hGVM id chunk).chunks =
      update g.chunks id (some { chunk with pSet := set }) :=
  linkChunk_chunks g _ here

/-! ### Allocation of pages -/

/-- `gmmR0AllocatePage`: the chunk it leaves, and the index of the page. -/
def allocatePage (chunk : GmmChunk) (hGVM hcPhysGCPhys : Nat) : GmmChunk × Nat :=
  let iPage := chunk.iFreeHead
  ({ chunk with
    hGVM := if chunk.hGVM = 0 then hGVM else chunk.hGVM
    cFree := subW 16 chunk.cFree 1
    cPrivate := addW 16 chunk.cPrivate 1
    iFreeHead := (chunk.aPages iPage).iNext
    aPages := Function.update chunk.aPages iPage (.priv
      (if hcPhysGCPhys ≤ gcPhysLast then hcPhysGCPhys / 4096 % 2 ^ 32 else pfnUnshareable)
      (hGVM % 2 ^ 16)) }, iPage)

end Gmm

/-- An allocation on its way: the pages it got, and the addresses of those it still wants. -/
structure Pick where
  gmm : Gmm
  ids : List Nat
  left : List Nat

namespace Pick

variable (hGVM : Nat)

/-- The loop of `gmmR0AllocatePagesFromChunk`. -/
def takePages (id : Nat) : List Nat → List Nat → GmmChunk → GmmChunk × List Nat × List Nat
  | ids, [], chunk => (chunk, ids, [])
  | ids, hcPhysGCPhys :: left, chunk =>
      if chunk.cFree = 0 then (chunk, ids, hcPhysGCPhys :: left)
      else
        let (chunk, iPage) := Gmm.allocatePage chunk hGVM hcPhysGCPhys
        takePages id (ids ++ [id * chunkNumPages + iPage]) left chunk

/-- `gmmR0AllocatePagesFromChunk` -/
def allocatePagesFromChunk (id : Nat) (chunk : GmmChunk) (p : Pick) : Pick :=
  let (taken, ids, left) := takePages hGVM id p.ids p.left { chunk with pSet := none }
  let gmm := (p.gmm.unlinkChunk id chunk).setChunk id taken
  match chunk.pSet with
  | some pSet => ⟨gmm.linkChunk id taken pSet, ids, left⟩
  | none => ⟨gmm, ids, left⟩

/-- How a scan of the free lists goes on at a chunk. -/
structure Scan where
  /-- The chunks that are taken from. -/
  wants : GmmChunk → Bool
  /-- Whether the VM becomes the chunk's. -/
  adopts : Bool
  /-- Whether the last chunk is kept as a hint. -/
  hints : Bool

/-- Go through a free list; whether the function has returned is kept beside. -/
def scanList (scan : Scan) : List Nat → Pick → Pick × Bool
  | [], p => (p, false)
  | id :: ids, p =>
      match p.gmm.chunks id with
      | none => scanList scan ids p
      | some chunk =>
          if scan.wants chunk then
            let p := allocatePagesFromChunk hGVM id
              { chunk with hGVM := if scan.adopts then hGVM else chunk.hGVM } p
            if p.left = [] then
              if scan.hints then
                let more := (p.gmm.chunks id).any (·.cFree ≠ 0)
                ({ p with gmm := p.gmm.setVm hGVM { p.gmm.vms hGVM with
                  idLastChunkHint := if more then id else 0 } }, true)
              else (p, true)
            else scanList scan ids p
          else scanList scan ids p

def scanLists (scan : Scan) (pSet : SetId) : List Nat → Pick → Pick
  | [], p => p
  | iList :: iLists, p =>
      let (p, returned) := scanList hGVM scan ((p.gmm.sets pSet).apLists iList) p
      if returned then p else scanLists scan pSet iLists p

/-- Go on if there are pages left to get. -/
def ifMore (p : Pick) (more : Pick → Pick) : Pick := if p.left = [] then p else more p

/-- `gmmR0AllocatePagesIndiscriminately` -/
def indiscriminately (pSet : SetId) (p : Pick) : Pick :=
  scanLists hGVM ⟨fun _ => true, false, false⟩ pSet (List.range 33).reverse p

/-- `gmmR0AllocatePagesFromEmptyChunksOnSameNode` -/
def fromEmptyChunksOnSameNode (pSet : SetId) (p : Pick) : Pick :=
  scanLists hGVM ⟨fun _ => true, true, true⟩ pSet [Gmm.unusedList] p

/-- `gmmR0AllocatePagesFromSameNode` -/
def fromSameNode (pSet : SetId) (p : Pick) : Pick :=
  scanLists hGVM ⟨fun _ => true, false, true⟩ pSet (List.range 32).reverse p

/-- Try the chunk of the last time. -/
def fromHint (p : Pick) : Pick :=
  let idLastChunkHint := (p.gmm.vms hGVM).idLastChunkHint
  if idLastChunkHint = 0 then p
  else match p.gmm.chunks idLastChunkHint with
    | some chunk =>
        if chunk.cFree = 0 then p else allocatePagesFromChunk hGVM idLastChunkHint chunk p
    | none => p

/-- `gmmR0AllocatePagesAssociatedWithVM` -/
def associatedWithVM (pSet : SetId) (p : Pick) : Pick :=
  let hinted := p.fromHint hGVM
  if hinted.left = [] ∧ (p.gmm.vms hGVM).idLastChunkHint ≠ 0 then hinted
  else scanLists hGVM ⟨fun chunk => chunk.hGVM = hGVM, false, true⟩ pSet (List.range 33) hinted

/-- `gmmR0AllocatePagesInBoundMode` -/
def inBoundMode (p : Pick) : Pick :=
  scanLists hGVM ⟨fun _ => true, false, false⟩ (.vm hGVM) (List.range 33) p

end Pick

namespace Gmm

variable (g : Gmm)

/-! ### New chunks -/

/-- The first clear bit from `first` on. -/
def nextClear (first : Nat) : Option Nat :=
  (List.range' first (chunkIdLast + 1 - first)).find? fun id => !g.bmChunkId id

/-- `gmmR0AllocateChunkId`; 0 is `NIL_GMM_CHUNKID`. -/
def allocateChunkId : Gmm × Nat :=
  let idChunk := g.idChunkPrev + 1
  let found :=
    if idChunk < chunkIdLast then (g.nextClear idChunk).or (g.nextClear 0) else g.nextClear 0
  match found with
  | none => ({ g with idChunkPrev := idChunk }, 0)
  | some id =>
      ({ g with idChunkPrev := id, bmChunkId := Function.update g.bmChunkId id true }, id)

/-- The chunk `gmmR0RegisterChunk` sets up. -/
def newChunk (hGVM : Nat) : GmmChunk :=
  ⟨none, 0, 0, chunkNumPages, hGVM, 0, 0,
    fun iPage => .free (if iPage + 1 < chunkNumPages then iPage + 1 else 65535)⟩

/-- `gmmR0RegisterChunk` behind the lock: the chunk is in the tree and on its list. -/
def registerChunk (pSet : SetId) (hGVM : Nat) : Gmm × Option Nat :=
  let (g, id) := g.allocateChunkId
  if id = 0 then (g, none)
  else match g.chunks id with
    | some _ => (g, none)
    | none => ((g.setChunk id (newChunk hGVM)).linkChunk id (newChunk hGVM) pSet, some id)

/-! ### Freeing -/

/-- `gmmR0FreeChunk` without a VM: nothing happens to a chunk that is mapped. -/
def freeChunk (id : Nat) (chunk : GmmChunk) : Gmm :=
  if chunk.cMappingsX ≠ 0 then g
  else
    let g := g.unlinkChunk id chunk
    { g with
      chunks := Function.update g.chunks id none
      bmChunkId := Function.update g.bmChunkId id false }

/-- Whether the chunk has a neighbour on both sides of its list. -/
def between (id : Nat) (chunk : GmmChunk) : Bool :=
  match chunk.pSet with
  | none => false
  | some pSet =>
      let list := (g.sets pSet).apLists (selectFreeSetList chunk.cFree)
      list.head? ≠ some id ∧ list.getLast? ≠ some id

/-- Count a page that has been put on the free list, and relink the chunk if necessary. -/
def countFreed (hGVM id : Nat) (chunk : GmmChunk) : Gmm :=
  let more := { chunk with cFree := addW 16 chunk.cFree 1 }
  if chunk.cFree = 0 ∨ selectFreeSetList chunk.cFree ≠ selectFreeSetList (chunk.cFree + 1) then
    ((g.unlinkChunk id chunk).setChunk id { more with pSet := none }).selectSetAndLinkChunk hGVM id
      { more with pSet := none }
  else
    match chunk.pSet with
    | none => g.setChunk id more
    | some pSet => (g.setChunk id more).setSet pSet
        { g.sets pSet with cFreePages := addW 64 (g.sets pSet).cFreePages 1 }

@[simp] theorem countFreed_vms (hGVM id : Nat) (chunk : GmmChunk) :
    (g.countFreed hGVM id chunk).vms = g.vms := by
  unfold countFreed
  simp only
  split
  · simp [selectSetAndLinkChunk]
  · split <;> rfl

theorem countFreed_chunks (hGVM id : Nat) (chunk : GmmChunk) :
    ∃ set, (g.countFreed hGVM id chunk).chunks = update g.chunks id
      (some { chunk with cFree := addW 16 chunk.cFree 1, pSet := set }) := by
  unfold countFreed
  simp only
  split
  · obtain ⟨set, chunks⟩ := selectSetAndLinkChunk_chunks ((g.unlinkChunk id chunk).setChunk id
      { chunk with cFree := addW 16 chunk.cFree 1, pSet := none }) hGVM (update_self ..)
    refine ⟨set, ?_⟩
    rw [chunks, setChunk_chunks, unlinkChunk_setChunk_chunks, update_idem]
  · split
    · exact ⟨none, by simp_all⟩
    · exact ⟨chunk.pSet, rfl⟩

/-- Give a chunk that has become empty back to the host if there are others on its list. -/
def giveBack (id : Nat) : Gmm :=
  match g.chunks id with
  | none => g
  | some chunk =>
      if chunk.cFree = chunkNumPages ∧ g.between id chunk ∧ ¬ g.fLegacyAllocationMode then
        g.freeChunk id chunk
      else g

/-- `gmmR0FreePageWorker`, of the chunk whose counts of private and shared pages are up to
date. -/
def freePageWorker (hGVM id iPage : Nat) (chunk : GmmChunk) : Gmm :=
  let chunk := { chunk with
    aPages := Function.update chunk.aPages iPage (.free chunk.iFreeHead)
    iFreeHead := iPage }
  ((g.setChunk id chunk).countFreed hGVM id chunk).giveBack id

/-- `gmmR0FreePrivatePage` -/
def freePrivatePage (hGVM idPage : Nat) : Gmm :=
  match g.chunks (idPage / chunkNumPages) with
  | none => g
  | some chunk =>
      (g.setAllocatedPages (subW 64 g.cAllocatedPages 1)).freePageWorker hGVM
        (idPage / chunkNumPages) (idPage % chunkNumPages)
        { chunk with cPrivate := subW 16 chunk.cPrivate 1 }

/-- `gmmR0FreeSharedPage` -/
def freeSharedPage (hGVM idPage : Nat) : Gmm :=
  match g.chunks (idPage / chunkNumPages) with
  | none => g
  | some chunk =>
      ((g.setAllocatedPages (subW 64 g.cAllocatedPages 1)).setSharedPages
        (subW 64 g.cSharedPages 1)).freePageWorker hGVM
        (idPage / chunkNumPages) (idPage % chunkNumPages)
        { chunk with cShared := subW 16 chunk.cShared 1 }

/-- Drop a reference to a shared page. -/
def releaseSharedPage (hGVM idPage pfn cRefs : Nat) : Gmm :=
  let g := g.setVm hGVM { g.vms hGVM with cSharedPages := subW 64 (g.vms hGVM).cSharedPages 1 }
  let cRefs := subW 16 cRefs 1
  let g := g.setPage idPage (.shared pfn cRefs)
  if cRefs = 0 then g.freeSharedPage hGVM idPage
  else g.setDuplicatePages (subW 64 g.cDuplicatePages 1)

/-! ### Accounts -/

def charge (hGVM : Nat) (enmAccount : GmmAccount) (cPages : Nat) : Gmm :=
  let vm := g.vms hGVM
  g.setVm hGVM { vm with
    allocated := Function.update vm.allocated enmAccount
      (addW enmAccount.width (vm.allocated enmAccount) cPages) }

def discharge (hGVM : Nat) (enmAccount : GmmAccount) (cPages : Nat) : Gmm :=
  let vm := g.vms hGVM
  g.setVm hGVM { vm with
    allocated := Function.update vm.allocated enmAccount
      (subW enmAccount.width (vm.allocated enmAccount) cPages) }

/-- `pGVM->gmm.s.Stats.cPrivatePages` -/
def setPrivatePages (hGVM cPrivatePages : Nat) : Gmm :=
  g.setVm hGVM { g.vms hGVM with cPrivatePages := cPrivatePages }

/-- Charge private pages to the account, the VM and the whole. -/
def chargePages (hGVM : Nat) (enmAccount : GmmAccount) (cPages : Nat) : Gmm :=
  let g := g.charge hGVM enmAccount cPages
  let g := g.setPrivatePages hGVM (addW 64 (g.vms hGVM).cPrivatePages cPages)
  g.setAllocatedPages (addW 64 g.cAllocatedPages cPages)

/-- Take private pages off again; some of them may be taken off the whole one by one. -/
def dischargePages (hGVM : Nat) (enmAccount : GmmAccount) (cPages cAllocated : Nat) : Gmm :=
  let g := g.setPrivatePages hGVM (subW 64 (g.vms hGVM).cPrivatePages cPages)
  let g := g.setAllocatedPages (subW 64 g.cAllocatedPages cAllocated)
  g.discharge hGVM enmAccount cPages

end Gmm

end VBox.Vmm
