import VBox.Vmm.Gmm.Gmm

/-!
The calls of the global memory manager.

A call is a row of sections under the giant lock. An allocation drops the lock whenever it
needs another chunk from the host; `AllocCall` is what it keeps until then.
-/

namespace VBox.Vmm

/-- An allocation that has charged its account and needs another chunk. -/
structure AllocCall where
  hGVM : Nat
  enmAccount : GmmAccount
  cPages : Nat
  ids : List Nat
  left : List Nat

/-- How a section ends: with the call, or with the lock dropped. -/
inductive Outcome where
  | done (rc : GmmRc)
  | grow (call : AllocCall)

/-- What the host makes of the request for a chunk: the chunk and the memory to manage it,
or an error. -/
inductive HostResult where
  | memory
  | failed (rc : GmmRc)

namespace Gmm

variable (g : Gmm)

/-! ### `gmmR0AllocatePagesNew` -/

/-- Release the pages of an allocation that has failed, the last one first. -/
def releasePages (hGVM : Nat) : List Nat → Gmm → Gmm
  | [], g => g
  | idPage :: ids, g =>
      releasePages hGVM ids
        (match g.getPage idPage with
        | some _ => g.freePrivatePage hGVM idPage
        | none => g)

/-- The clean up on failure. -/
def cleanUp (call : AllocCall) : Gmm :=
  releasePages call.hGVM call.ids.reverse
    (g.dischargePages call.hGVM call.enmAccount call.cPages call.left.length)

/-- The pages that are wanted are there, or another chunk is needed. -/
def allocated (call : AllocCall) (p : Pick) : Gmm × Outcome :=
  if p.left = [] then (p.gmm, .done .success)
  else (p.gmm, .grow { call with ids := p.ids, left := p.left })

/-- `gmmR0ShouldAllocatePagesInOtherChunksBecauseOfLimits` -/
def shouldBecauseOfLimits (hGVM : Nat) : Bool :=
  let vm := g.vms hGVM
  let cPgReserved := subW 64 (addW 64 (vm.reserved .base) (vm.reserved .fixed)) vm.cBalloonedPages
  let cPgAllocated := addW 64 (vm.allocated .base) (vm.allocated .fixed)
  subW 64 cPgReserved cPgAllocated < chunkNumPages * 4

/-- `gmmR0ShouldAllocatePagesInOtherChunksBecauseOfLotsFree` -/
def shouldBecauseOfLotsFree : Bool := chunkNumPages * 16 ≤ (g.sets .privateX).cFreePages

/-- The most optimal pages first, then those of empty chunks and of other VMs. -/
def pickShared (hGVM : Nat) (p : Pick) : Pick :=
  (p.associatedWithVM hGVM .privateX).ifMore fun p =>
    let limits := p.gmm.shouldBecauseOfLimits hGVM
    let p := if limits then p.fromSameNode hGVM .privateX else p
    let p := p.ifMore fun p => p.fromEmptyChunksOnSameNode hGVM .privateX
    let p := p.ifMore fun p => p.fromEmptyChunksOnSameNode hGVM .shared
    if ¬ limits ∧ p.gmm.shouldBecauseOfLotsFree then
      (p.fromSameNode hGVM .privateX).ifMore fun p => p.indiscriminately hGVM .privateX
    else p

/-- The allocation limits. -/
def checkLimits (hGVM : Nat) (enmAccount : GmmAccount) (cPages : Nat) : GmmRc :=
  let vm := g.vms hGVM
  let w := enmAccount.width
  if g.cMaxPages < addW 64 g.cAllocatedPages cPages then .hitGlobalLimit
  else if vm.reserved enmAccount <
      addW w (addW w (vm.allocated enmAccount) (vm.cBallooned enmAccount)) cPages then
    .hitVmAccountLimit
  else if g.fLegacyAllocationMode ∧ (g.sets (.vm hGVM)).cFreePages < cPages then .seedMe
  else .success

/-- Pick pages for a call that has charged its account. -/
def pickPages (call : AllocCall) : Gmm × Outcome :=
  let p : Pick := ⟨g, call.ids, call.left⟩
  if g.fLegacyAllocationMode then
    let p := p.inBoundMode call.hGVM
    (p.gmm, .done (if p.left = [] then .success else .allocPagesIpe))
  else if g.fBoundMemoryMode then allocated call (p.inBoundMode call.hGVM)
  else allocated call (pickShared call.hGVM p)

/-- The section of `gmmR0AllocatePagesNew` up to the first chunk that is needed. -/
def allocatePagesNew (hGVM : Nat) (enmAccount : GmmAccount) (descs : List Nat) : Gmm × Outcome :=
  match g.checkLimits hGVM enmAccount descs.length with
  | .success => (g.chargePages hGVM enmAccount descs.length).pickPages
      ⟨hGVM, enmAccount, descs.length, [], descs⟩
  | rc => (g, .done rc)

/-- Where the chunks for a VM are linked. -/
def setFor (hGVM : Nat) : SetId := if g.fBoundMemoryMode then .vm hGVM else .privateX

/-- `gmmR0AllocateChunkNew` behind the request: the chunk is registered and taken from. -/
def useChunk (call : AllocCall) : Gmm × Outcome :=
  match g.registerChunk (g.setFor call.hGVM) call.hGVM with
  | (g, none) => (g.cleanUp call, .done .chunkInsert)
  | (g, some id) =>
      match g.chunks id with
      | none => (g, .grow call)
      | some chunk => allocated call
          (Pick.allocatePagesFromChunk call.hGVM id chunk ⟨g, call.ids, call.left⟩)

/-- If the host is out of memory, an allocation takes whatever there is. -/
def mayScavenge (call : AllocCall) (rc : GmmRc) : Bool :=
  ¬ g.fBoundMemoryMode ∧ (rc = .noMemory ∨ rc = .noPhysMemory) ∧
    call.left.length ≤ addW 64 (g.sets .privateX).cFreePages (g.sets .shared).cFreePages

/-- There is no chunk. -/
def withoutChunk (call : AllocCall) (rc : GmmRc) : Gmm × Outcome :=
  if g.mayScavenge call rc then
    let p := (⟨g, call.ids, call.left⟩ : Pick).indiscriminately call.hGVM .privateX
    let p := p.ifMore (Pick.indiscriminately call.hGVM .shared)
    (p.gmm, .done .success)
  else (g.cleanUp call, .done rc)

/-- The section that follows the request for a chunk. -/
def allocateChunkNew (call : AllocCall) (host : HostResult) : Gmm × Outcome :=
  match host with
  | .memory => g.useChunk call
  | .failed rc => g.withoutChunk call rc

/-! ### The calls -/

/-- No allocations before the initial reservation has been made. -/
def hasReserved (hGVM : Nat) : Bool :=
  (g.vms hGVM).reserved .base ≠ 0 ∧ (g.vms hGVM).reserved .fixed ≠ 0 ∧
    (g.vms hGVM).reserved .shadow ≠ 0

/-- What `GMMR0AllocatePages` accepts for the address of a page. -/
def acceptsDesc (enmAccount : GmmAccount) (hcPhysGCPhys : Nat) : Bool :=
  hcPhysGCPhys = nilHCPhys ∨ hcPhysGCPhys = gcPhysUnshareable ∨
    (enmAccount = .base ∧ hcPhysGCPhys ≤ gcPhysLast ∧ hcPhysGCPhys % 4096 = 0)

/-- `GMMR0AllocatePages` -/
def allocatePages (hGVM : Nat) (enmAccount : GmmAccount) (descs : List Nat) : Gmm × Outcome :=
  if descs.length = 0 ∨ 2 ^ 20 ≤ descs.length ∨ ¬ descs.all (acceptsDesc enmAccount) then
    (g, .done .invalidParameter)
  else if g.hasReserved hGVM then g.allocatePagesNew hGVM enmAccount descs
  else (g, .done .wrongOrder)

/-- A descriptor of `GMMR0AllocateHandyPages` to update. -/
structure HandyUpdate where
  hcPhysGCPhys : Nat
  idPage : Nat
  idSharedPage : Nat

/-- The update of a private page. -/
def updatePrivate (hGVM : Nat) (update : HandyUpdate) : Gmm × GmmRc :=
  if update.idPage = 0 then (g, .success)
  else match g.getPage update.idPage with
    | none => (g, .pageNotFound)
    | some (.priv pfn owner) =>
        if owner = hGVM then
          let pfn :=
            if update.hcPhysGCPhys ≤ gcPhysLast then update.hcPhysGCPhys / 4096 % 2 ^ 32
            else if update.hcPhysGCPhys = gcPhysUnshareable then pfnUnshareable else pfn
          (g.setPage update.idPage (.priv pfn owner), .success)
        else (g, .notPageOwner)
    | some _ => (g, .pageNotPrivate)

/-- The update of a shared page: a reference less. -/
def updateShared (hGVM : Nat) (update : HandyUpdate) : Gmm × GmmRc :=
  if update.idSharedPage = 0 then (g, .success)
  else match g.getPage update.idSharedPage with
    | none => (g, .pageNotFound)
    | some (.shared pfn cRefs) =>
        ((g.discharge hGVM .base 1).releaseSharedPage hGVM update.idSharedPage pfn cRefs, .success)
    | some _ => (g, .pageNotShared)

/-- The updates up to the first error. -/
def updateHandy (hGVM : Nat) : List HandyUpdate → Gmm → Gmm × GmmRc
  | [], g => (g, .success)
  | update :: updates, g =>
      match g.updatePrivate hGVM update with
      | (g, .success) =>
          match g.updateShared hGVM update with
          | (g, .success) => updateHandy hGVM updates g
          | (g, rc) => (g, rc)
      | (g, rc) => (g, rc)

def acceptsUpdate (update : HandyUpdate) : Bool :=
  ((update.hcPhysGCPhys ≤ gcPhysLast ∧ update.hcPhysGCPhys % 4096 = 0) ∨
    update.hcPhysGCPhys = nilHCPhys ∨ update.hcPhysGCPhys = gcPhysUnshareable) ∧
    update.idPage ≤ pageIdLast

/-- `GMMR0AllocateHandyPages`; the descriptors to allocate are blank. -/
def allocateHandyPages (hGVM : Nat) (updates : List HandyUpdate) (cPagesToAlloc : Nat) :
    Gmm × Outcome :=
  if ¬ ((updates.length ≠ 0 ∧ updates.length < 1024) ∨
      (cPagesToAlloc ≠ 0 ∧ cPagesToAlloc < 1024)) ∨ ¬ updates.all acceptsUpdate then
    (g, .done .invalidParameter)
  else if g.hasReserved hGVM then
    match updateHandy hGVM updates g with
    | (g, .success) =>
        if cPagesToAlloc = 0 then (g, .done .success)
        else g.allocatePagesNew hGVM .base (List.replicate cPagesToAlloc nilHCPhys)
    | (g, rc) => (g, .done rc)
  else (g, .done .wrongOrder)

/-- The loop of `gmmR0FreePages`, with the number of pages freed before an error. -/
def freeLoop (hGVM : Nat) : List Nat → Nat → Gmm → Gmm × Nat × GmmRc
  | [], iPage, g => (g, iPage, .success)
  | idPage :: ids, iPage, g =>
      match g.getPage idPage with
      | none => (g, iPage, .pageNotFound)
      | some (.priv _ owner) =>
          if owner = hGVM then
            freeLoop hGVM ids (iPage + 1)
              ((g.setPrivatePages hGVM (subW 64 (g.vms hGVM).cPrivatePages 1)).freePrivatePage
                hGVM idPage)
          else (g, iPage, .notPageOwner)
      | some (.shared pfn cRefs) =>
          freeLoop hGVM ids (iPage + 1) (g.releaseSharedPage hGVM idPage pfn cRefs)
      | some (.free _) => (g, iPage, .pageAlreadyFree)

/-- `GMMR0FreePages` -/
def freePages (hGVM : Nat) (enmAccount : GmmAccount) (ids : List Nat) : Gmm × GmmRc :=
  if ids.length = 0 ∨ 2 ^ 20 ≤ ids.length ∨ ¬ ids.all (· ≤ pageIdLast) then
    (g, .invalidParameter)
  else if (g.vms hGVM).allocated enmAccount < ids.length then (g, .attemptToFreeTooMuch)
  else
    let (g, iPage, rc) := freeLoop hGVM ids 0 g
    (g.discharge hGVM enmAccount iPage, rc)

/-- The first section of `GMMR0AllocateLargePage`, which only looks. -/
def allocateLargePage (hGVM : Nat) : GmmRc :=
  let vm := g.vms hGVM
  if g.fLegacyAllocationMode then .notSupported
  else if vm.reserved .base < addW 64 (addW 64 (vm.allocated .base) vm.cBalloonedPages) chunkNumPages then
    .hitVmAccountLimit
  else .success

/-- Its second section, behind the request for a chunk. -/
def allocateLargePageChunk (hGVM : Nat) (host : HostResult) : Gmm × GmmRc :=
  match host with
  | .failed rc => (g, rc)
  | .memory =>
      match g.registerChunk (g.setFor hGVM) hGVM with
      | (g, none) => (g, .chunkInsert)
      | (g, some id) =>
          match g.chunks id with
          | none => (g, .chunkInsert)
          | some chunk =>
              let (taken, _, _) := Pick.takePages hGVM id []
                (List.replicate chunkNumPages nilHCPhys) { chunk with pSet := none }
              let g := ((g.unlinkChunk id chunk).setChunk id taken).chargePages hGVM .base
                chunkNumPages
              (g.linkChunk id taken (g.setFor hGVM), .success)

/-- `GMMR0FreeLargePage` -/
def freeLargePage (hGVM idPage : Nat) : Gmm × GmmRc :=
  if g.fLegacyAllocationMode then (g, .notSupported)
  else if (g.vms hGVM).allocated .base < chunkNumPages then (g, .attemptToFreeTooMuch)
  else
    match g.chunks (idPage / chunkNumPages) with
    | none => (g, .pageNotFound)
    | some chunk =>
        match chunk.aPages (idPage % chunkNumPages) with
        | .priv _ _ => ((g.freeChunk (idPage / chunkNumPages) chunk).dischargePages hGVM .base
            chunkNumPages chunkNumPages, .success)
        | _ => (g, .pageNotFound)

inductive BalloonAction where
  | inflate
  | deflate
  | reset

def setBallooned (hGVM cBalloonedPages cVmBalloonedPages : Nat) : Gmm :=
  { g with cBalloonedPages }.setVm hGVM
    { g.vms hGVM with cBalloonedPages := cVmBalloonedPages }

/-- `GMMR0BalloonedPages` -/
def balloonedPages (hGVM : Nat) (enmAction : BalloonAction) (cBalloonedPages : Nat) : Gmm × GmmRc :=
  let vm := g.vms hGVM
  if 2 ^ 20 ≤ cBalloonedPages then (g, .invalidParameter)
  else match enmAction with
    | .inflate =>
        if addW 64 (addW 64 (vm.allocated .base) vm.cBalloonedPages) cBalloonedPages ≤
            vm.reserved .base then
          (g.setBallooned hGVM (addW 64 g.cBalloonedPages cBalloonedPages)
            (addW 64 vm.cBalloonedPages cBalloonedPages), .success)
        else (g, .attemptToFreeTooMuch)
    | .deflate =>
        if cBalloonedPages ≤ vm.cBalloonedPages then
          (g.setBallooned hGVM (subW 64 g.cBalloonedPages cBalloonedPages)
            (subW 64 vm.cBalloonedPages cBalloonedPages), .success)
        else (g, .attemptToDeflateTooMuch)
    | .reset => (g.setBallooned hGVM (subW 64 g.cBalloonedPages vm.cBalloonedPages) 0, .success)

end Gmm

end VBox.Vmm
