import VBox.Lib.LinkedList
import VBox.Lib.Run
import VBox.Storage.Vci.BlkMap

/-!
Allocation in the block map of the VCI cache.

The range descriptors are blocks of memory linked both ways. `vciBlkMapAllocate` splits
the smallest free range that is large enough, `vciBlkMapFree` merges a range with free
neighbours. A walk along the descriptors that takes more steps than there are
descriptors in memory does not end.
-/

namespace VBox.Storage.Vci

open VBox.Lib

def vciBlkMapAllocData : UInt32 := 0

def vciBlkMapAllocMeta : UInt32 := 1

def vciBlkMapAllocMask : UInt32 := 1

inductive AllocRc where
  | success
  | noMemory
  | noBlocksFree
  deriving DecidableEq, Repr

/-- `VCIBLKMAP` with its range descriptors: `links` are `pRangesHead` and the `pNext` and
`pPrev` of each, `blocks` the descriptors that are allocated and not freed. -/
structure BlkMap where
  cBlocks : UInt64
  cBlocksAllocMeta : UInt64
  cBlocksAllocData : UInt64
  cBlocksFree : UInt64
  links : Links Nat
  pRangesTail : Option Nat
  desc : Nat → VciBlkRangeDesc
  blocks : List Nat

namespace BlkMap

/-- `vciBlkMapCreate` with the descriptor it gets from `RTMemAllocZ`. -/
def vciBlkMapCreate (cBlocks : UInt64) (pFree : Nat) : BlkMap where
  cBlocks := cBlocks
  cBlocksAllocMeta := 0
  cBlocksAllocData := 0
  cBlocksFree := cBlocks
  links := Links.empty.insertFirst pFree
  pRangesTail := some pFree
  desc := fun _ => ⟨0, cBlocks.toNat, true⟩
  blocks := [pFree]

/-- The range takes the place of the best fit so far. -/
def fitsBetter (s : BlkMap) (cBlocks : Nat) (pBestFit : Option Nat) (pCur : Nat) : Bool :=
  (s.desc pCur).fFree && cBlocks ≤ (s.desc pCur).cBlocks &&
    pBestFit.all fun p => (s.desc pCur).cBlocks < (s.desc p).cBlocks

/-- The search of `vciBlkMapAllocate` from `pCur` on. -/
def searchBestFit (s : BlkMap) (cBlocks : Nat) :
    Nat → Option Nat → Option Nat → Option (Option Nat)
  | _, none, pBestFit => some pBestFit
  | 0, some _, _ => none
  | fuel + 1, some pCur, pBestFit =>
      if s.fitsBetter cBlocks pBestFit pCur then
        -- stop searching if the size is matching exactly
        if (s.desc pCur).cBlocks = cBlocks then some (some pCur)
        else s.searchBestFit cBlocks fuel (s.links.next pCur) (some pCur)
      else s.searchBestFit cBlocks fuel (s.links.next pCur) pBestFit

def setFree (s : BlkMap) (p : Nat) (fFree : Bool) : BlkMap :=
  { s with desc := Function.update s.desc p { s.desc p with fFree := fFree } }

/-- Cut `pBestFit` behind its first `cBlocks` blocks. The range behind it keeps its
`pPrev`. -/
def split (s : BlkMap) (pBestFit pFree cBlocks : Nat) : BlkMap :=
  let best := s.desc pBestFit
  { s with
    desc := Function.update (Function.update s.desc pBestFit ⟨best.offAddrStart, cBlocks, false⟩)
      pFree ⟨best.offAddrStart + cBlocks, best.cBlocks - cBlocks, true⟩
    links :=
      { s.links with
        next := Function.update (Function.update s.links.next pFree (s.links.next pBestFit))
          pBestFit (some pFree)
        prev := Function.update s.links.prev pFree (some pBestFit) }
    pRangesTail := if (s.links.next pBestFit).isNone then some pFree else s.pRangesTail
    blocks := pFree :: s.blocks }

/-- The counters of a successful allocation. -/
def countAllocated (s : BlkMap) (cBlocks : Nat) (fFlags : UInt32) : BlkMap :=
  let s :=
    if fFlags &&& vciBlkMapAllocMask = vciBlkMapAllocData then
      { s with cBlocksAllocMeta := s.cBlocksAllocMeta + UInt64.ofNat cBlocks }
    else { s with cBlocksAllocData := s.cBlocksAllocData + UInt64.ofNat cBlocks }
  { s with cBlocksFree := s.cBlocksFree - UInt64.ofNat cBlocks }

/-- `vciBlkMapAllocate` with the status and `*poffBlockAddr`; `pFree` is what `RTMemAllocZ`
returns for a split. -/
def vciBlkMapAllocate (s : BlkMap) (cBlocks : Nat) (fFlags : UInt32) (poffBlockAddr : Nat)
    (pFree : Option Nat) : Option (BlkMap × AllocRc × Nat) :=
  (s.searchBestFit cBlocks s.blocks.length s.links.head none).map fun
    | none => (s, .noBlocksFree, poffBlockAddr)
    | some pBestFit =>
        if cBlocks < (s.desc pBestFit).cBlocks then
          match pFree with
          | some pFree =>
              ((s.split pBestFit pFree cBlocks).countAllocated cBlocks fFlags, .success,
                (s.desc pBestFit).offAddrStart)
          | none => (s, .noMemory, poffBlockAddr)
        else ((s.setFree pBestFit false).countAllocated cBlocks fFlags, .success, poffBlockAddr)

/-- `vciBlkMapFindByBlock` from `pBlk` on. -/
def findByBlock (s : BlkMap) (offBlockAddr : Nat) : Nat → Option Nat → Option (Option Nat)
  | _, none => some none
  | 0, some _ => none
  | fuel + 1, some pBlk =>
      if (s.desc pBlk).offAddrStart < offBlockAddr then
        s.findByBlock offBlockAddr fuel (s.links.next pBlk)
      else some (some pBlk)

/-- Take the blocks of `pNext` into `pBlk` in front of it, and free `pNext`; memory that is
not in use has no links here. -/
def absorb (s : BlkMap) (pBlk pNext : Nat) : BlkMap :=
  { s with
    desc := Function.update s.desc pBlk
      { s.desc pBlk with cBlocks := (s.desc pBlk).cBlocks + (s.desc pNext).cBlocks }
    links :=
      { s.links with
        next := Function.update (Function.update s.links.next pBlk (s.links.next pNext)) pNext none
        prev := Function.update
          (match s.links.next pNext with
            | some p => Function.update s.links.prev p (some pBlk)
            | none => s.links.prev) pNext none }
    pRangesTail := match s.links.next pNext with
      | some _ => s.pRangesTail
      | none => some pBlk
    blocks := s.blocks.erase pNext }

/-- Merge with the range to the left if that is free; the range there is now. -/
def mergeLeft (s : BlkMap) (pBlk : Nat) : BlkMap × Nat :=
  match s.links.prev pBlk with
  | some pBlkPrev =>
      if (s.desc pBlkPrev).fFree then (s.absorb pBlkPrev pBlk, pBlkPrev) else (s, pBlk)
  | none => (s, pBlk)

def mergeRight (s : BlkMap) (pBlk : Nat) : BlkMap :=
  match s.links.next pBlk with
  | some pBlkNext => if (s.desc pBlkNext).fFree then s.absorb pBlk pBlkNext else s
  | none => s

/-- The loop of `vciBlkMapFree` with the blocks it leaves; without a result where it does
not end or goes through a NULL pointer. -/
def freeLoop : Nat → BlkMap → Nat → Nat → Option (BlkMap × Nat)
  | _, s, _, 0 => some (s, 0)
  | 0, _, _, _ + 1 => none
  | fuel + 1, s, offBlockAddr, cBlocks + 1 =>
      match s.findByBlock offBlockAddr s.blocks.length s.links.head with
      | some (some pBlk) =>
          let blk := s.desc pBlk
          if blk.offAddrStart = offBlockAddr && blk.cBlocks ≤ cBlocks + 1 then
            let (merged, pMerged) := (s.setFree pBlk true).mergeLeft pBlk
            freeLoop fuel (merged.mergeRight pMerged) (offBlockAddr + blk.cBlocks)
              (cBlocks + 1 - blk.cBlocks)
          else freeLoop fuel s offBlockAddr (cBlocks + 1)
      | _ => none

/-- The counters at the end of `vciBlkMapFree`. -/
def countFreed (s : BlkMap) (cBlocks : Nat) (fFlags : UInt32) : BlkMap :=
  let s :=
    if fFlags &&& vciBlkMapAllocMask = vciBlkMapAllocData then
      { s with cBlocksAllocMeta := s.cBlocksAllocMeta - UInt64.ofNat cBlocks }
    else { s with cBlocksAllocData := s.cBlocksAllocData - UInt64.ofNat cBlocks }
  { s with cBlocksFree := s.cBlocksFree + UInt64.ofNat cBlocks }

/-- The counters are given what is left of `cBlocks` behind the loop. -/
def vciBlkMapFree (fuel : Nat) (s : BlkMap) (offBlockAddr cBlocks : Nat) (fFlags : UInt32) :
    Option BlkMap :=
  (freeLoop fuel s offBlockAddr cBlocks).map fun (s, cBlocks) => s.countFreed cBlocks fFlags

/-- The descriptors from `p` on. -/
def walk (s : BlkMap) : Nat → Option Nat → List Nat
  | _, none => []
  | 0, some _ => []
  | fuel + 1, some p => p :: s.walk fuel (s.links.next p)

/-- The descriptors in the order of the list. -/
def order (s : BlkMap) : List Nat := s.walk s.blocks.length s.links.head

def ranges (s : BlkMap) : List VciBlkRangeDesc := s.order.map s.desc

end BlkMap

/-- An allocation as its caller knows it. -/
structure Allocation where
  offBlockAddr : Nat
  cBlocks : Nat
  fFlags : UInt32
  deriving DecidableEq, Repr

def Allocation.isData (a : Allocation) : Bool :=
  a.fFlags &&& vciBlkMapAllocMask = vciBlkMapAllocData

/-- A block map with the allocations that have not been freed, and all that have
succeeded. -/
structure BlkMapRun where
  map : BlkMap
  live : List Allocation
  ever : List Allocation

inductive BlkMapLabel where
  | alloc (cBlocks : UInt32) (fFlags : UInt32) (poffBlockAddr : Nat) (pFree : Option Nat)
  | free (a : Allocation)

/-- The caller takes what the call has stored for the start of its blocks. -/
def BlkMapRun.allocated (s : BlkMapRun) (map : BlkMap) (rc : AllocRc) (a : Allocation) :
    BlkMapRun :=
  if rc = .success then ⟨map, a :: s.live, a :: s.ever⟩ else { s with map := map }

/-- `RTMemAllocZ` returns memory not in use; a live allocation is freed with its flags. -/
inductive BlkMapStep (s : BlkMapRun) : BlkMapLabel → BlkMapRun → Prop where
  | alloc {cBlocks fFlags : UInt32} {poffBlockAddr off : Nat} {pFree : Option Nat} {map : BlkMap}
      {rc : AllocRc} (fresh : ∀ p, pFree = some p → p ∉ s.map.blocks)
      (returns : s.map.vciBlkMapAllocate cBlocks.toNat fFlags poffBlockAddr pFree =
        some (map, rc, off)) :
      BlkMapStep s (.alloc cBlocks fFlags poffBlockAddr pFree)
        (s.allocated map rc ⟨off, cBlocks.toNat, fFlags⟩)
  | free {a : Allocation} {fuel : Nat} {map : BlkMap} (live : a ∈ s.live)
      (returns : s.map.vciBlkMapFree fuel a.offBlockAddr a.cBlocks a.fFlags = some map) :
      BlkMapStep s (.free a) { s with map := map, live := s.live.erase a }

def BlkMapRun.created (cBlocks : UInt64) (pFree : Nat) : BlkMapRun :=
  ⟨.vciBlkMapCreate cBlocks pFree, [], []⟩

end VBox.Storage.Vci
