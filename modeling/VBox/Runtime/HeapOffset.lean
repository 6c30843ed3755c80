import Mathlib.Algebra.GroupWithZero.Nat
import VBox.Lib.OffsetList

/-!
The offset heap.

The heap is a memory of 32-bit words, addressed by their byte offsets from the anchor
block; an offset of zero is no block. Blocks are on two lists, all of them by address,
and the free ones. Loops have fuel, and end with `none` when it runs out.
-/

namespace VBox.Runtime

open VBox.Lib

def sub32 (a b : Nat) : Nat := (a + (2 ^ 32 - b % 2 ^ 32)) % 2 ^ 32

def add32 (a b : Nat) : Nat := (a + b) % 2 ^ 32

section Fields

def u32MagicAt : Nat := 0
def cbHeapAt : Nat := 4
def cbFreeAt : Nat := 8
def offFreeHeadAt : Nat := 12
def offFreeTailAt : Nat := 16

/-- `Core.offNext`; a block begins with it. -/
def coreNextAt (off : Nat) : Nat := off
def corePrevAt (off : Nat) : Nat := off + 4
def offSelfAt (off : Nat) : Nat := off + 8
def fFlagsAt (off : Nat) : Nat := off + 12
def offNextAt (off : Nat) : Nat := off + 16
def offPrevAt (off : Nat) : Nat := off + 20
def cbAt (off : Nat) : Nat := off + 24

/-- `RTHEAPOFFSET_MAGIC` -/
def heapMagic : Nat := 0x19591031

/-- `RTHEAPOFFSETBLOCK_FLAGS_MAGIC` -/
def flagsMagic : Nat := 0xabcdef00

/-- `RTHEAPOFFSETBLOCK_IS_FREE` -/
def isFree (mem : Words) (off : Nat) : Bool := mem (fFlagsAt off) &&& 1 ≠ 0

end Fields

/-- The address of the anchor block, and the words of the heap. -/
structure OffsetHeap where
  pHeapInt : Nat
  mem : Words

/-- `RTHeapOffsetInit` -/
def rtHeapOffsetInit (mem : Words) (pvMemory cbMemory : Nat) : Option OffsetHeap :=
  if 4096 ≤ cbMemory ∧ cbMemory < 2 ^ 32 - 1 ∧
      cbMemory < (pvMemory + (cbMemory - 1)) % 2 ^ 64 then
    let off := if pvMemory &&& 31 ≠ 0 then 32 - (pvMemory &&& 31) else 0
    let cbMemory := (cbMemory - off) / 16 * 16
    let pFree := 32
    some ⟨pvMemory + off, mem
      |>.store u32MagicAt (fun _ => heapMagic)
      |>.store cbHeapAt (fun _ => cbMemory)
      |>.store cbFreeAt (fun _ => sub32 (sub32 cbMemory 16) 32)
      |>.store offFreeHeadAt (fun _ => 32)
      |>.store offFreeTailAt (fun mem => mem offFreeHeadAt)
      |>.store 20 (fun _ => 2 ^ 32 - 1)
      |>.store 24 (fun _ => 2 ^ 32 - 1)
      |>.store 28 (fun _ => 2 ^ 32 - 1)
      |>.store (coreNextAt pFree) (fun _ => 0)
      |>.store (corePrevAt pFree) (fun _ => 0)
      |>.store (offSelfAt pFree) (fun mem => mem offFreeHeadAt)
      |>.store (fFlagsAt pFree) (fun _ => flagsMagic ||| 1)
      |>.store (offNextAt pFree) (fun _ => 0)
      |>.store (offPrevAt pFree) (fun _ => 0)
      |>.store (cbAt pFree) (fun mem => mem cbFreeAt)⟩
  else none

section Alloc

/-- The end of the block at `off`, whose `Core.offNext` is `offNext`. -/
def endOf (mem : Words) (offNext : Nat) : Nat := if offNext ≠ 0 then offNext else mem cbHeapAt

/-- The search of `rtHeapOffsetAllocBlock`: the first free block that fits, and `offAlign`
where it has to be split for its alignment; zero when there is none. -/
def findFit (heap : OffsetHeap) (cb uAlignment : Nat) : Nat → Nat → Option (Nat × Option Nat)
  | 0, _ => none
  | fuel + 1, pFree =>
      if pFree = 0 then some (0, none)
      else if heap.mem (cbAt pFree) < cb then
        findFit heap cb uAlignment fuel (heap.mem (offNextAt pFree))
      else if (heap.pHeapInt + pFree + 16) &&& (uAlignment - 1) ≠ 0 then
        let offAlign := uAlignment - ((heap.pHeapInt + pFree + 48) &&& (uAlignment - 1))
        if heap.mem (cbAt pFree) < cb + offAlign + 32 then
          findFit heap cb uAlignment fuel (heap.mem (offNextAt pFree))
        else some (pFree, some offAlign)
      else some (pFree, none)

/-- Split the free block `pPrev` so that the second block, `pFree`, is aligned. -/
def splitAligned (mem : Words) (pPrev pFree : Nat) : Words :=
  mem
  |>.store (corePrevAt pFree) (fun mem => mem (offSelfAt pPrev))
  |>.store (coreNextAt pFree) (fun mem => mem (coreNextAt pPrev))
  |>.store (offSelfAt pFree) (fun _ => pFree)
  |>.store (fFlagsAt pFree) (fun _ => flagsMagic ||| 1)
  |>.store (offPrevAt pFree) (fun mem => mem (offSelfAt pPrev))
  |>.store (offNextAt pFree) (fun mem => mem (offNextAt pPrev))
  |>.store (cbAt pFree) (fun mem =>
    sub32 (sub32 (endOf mem (mem (coreNextAt pFree))) (mem (offSelfAt pFree))) 16)
  |>.store (coreNextAt pPrev) (fun mem => mem (offSelfAt pFree))
  |>.store (offNextAt pPrev) (fun mem => mem (offSelfAt pFree))
  |>.store (cbAt pPrev) (fun mem =>
    sub32 (sub32 (mem (offSelfAt pFree)) (mem (offSelfAt pPrev))) 16)
  |>.storeIf (fun mem => mem (coreNextAt pFree)) corePrevAt (fun mem => mem (offSelfAt pFree))
  -- the field of the physically next block, where that of the next free one is meant
  |>.storeCase (fun mem => mem (offNextAt pFree)) (fun mem => offPrevAt (mem (coreNextAt pFree)))
    offFreeTailAt (fun mem => mem (offSelfAt pFree))
  |>.store cbFreeAt (fun mem => sub32 (mem cbFreeAt) 16)

/-- Split a free block off at the end of `pFree`, which is then in use. -/
def splitEnd (mem : Words) (pFree cb : Nat) : Words :=
  let pNew := pFree + cb + 16
  mem
  |>.store (offSelfAt pNew) (fun _ => pNew)
  |>.store (coreNextAt pNew) (fun mem => mem (coreNextAt pFree))
  |>.storeIf (fun mem => mem (coreNextAt pFree)) corePrevAt (fun mem => mem (offSelfAt pNew))
  |>.store (corePrevAt pNew) (fun _ => pFree)
  |>.store (fFlagsAt pNew) (fun _ => flagsMagic ||| 1)
  |>.store (offNextAt pNew) (fun mem => mem (offNextAt pFree))
  |>.storeOr (fun mem => mem (offNextAt pNew)) offPrevAt offFreeTailAt
    (fun mem => mem (offSelfAt pNew))
  |>.store (offPrevAt pNew) (fun mem => mem (offPrevAt pFree))
  |>.storeOr (fun mem => mem (offPrevAt pNew)) offNextAt offFreeHeadAt
    (fun mem => mem (offSelfAt pNew))
  |>.store (cbAt pNew) (fun mem =>
    sub32 (sub32 (endOf mem (mem (coreNextAt pNew))) (mem (offSelfAt pNew))) 16)
  |>.store (fFlagsAt pFree) (fun mem => mem (fFlagsAt pFree) &&& 0xfffffffe)
  |>.store (coreNextAt pFree) (fun mem => mem (offSelfAt pNew))
  |>.store cbFreeAt (fun mem => sub32 (mem cbFreeAt) (mem (cbAt pFree)))
  |>.store cbFreeAt (fun mem => add32 (mem cbFreeAt) (mem (cbAt pNew)))

/-- Take the whole of `pFree`. -/
def takeWhole (mem : Words) (pFree : Nat) : Words :=
  mem
  |>.storeOr (fun mem => mem (offNextAt pFree)) offPrevAt offFreeTailAt
    (fun mem => mem (offPrevAt pFree))
  |>.storeOr (fun mem => mem (offPrevAt pFree)) offNextAt offFreeHeadAt
    (fun mem => mem (offNextAt pFree))
  |>.store cbFreeAt (fun mem => sub32 (mem cbFreeAt) (mem (cbAt pFree)))
  |>.store (fFlagsAt pFree) (fun mem => mem (fFlagsAt pFree) &&& 0xfffffffe)

def takeBlock (mem : Words) (pFree cb : Nat) : Words :=
  if cb + 32 ≤ mem (cbAt pFree) then splitEnd mem pFree cb else takeWhole mem pFree

/-- `rtHeapOffsetAllocBlock`; the block is zero on failure. -/
def rtHeapOffsetAllocBlock (heap : OffsetHeap) (cb uAlignment : Nat) : Option (OffsetHeap × Nat) :=
  if heap.mem u32MagicAt ≠ heapMagic then some (heap, 0)
  else
    match findFit heap cb uAlignment (heap.mem cbHeapAt) (heap.mem offFreeHeadAt) with
    | none => none
    | some (pFree, offAlign?) =>
        if pFree = 0 then some (heap, 0)
        else
          match offAlign? with
          | some offAlign =>
              let pPrev := pFree
              let pFree := pPrev + 32 + offAlign
              let mem := splitAligned heap.mem pPrev pFree
              some ({ heap with mem := takeBlock mem pFree cb }, pFree)
          | none => some ({ heap with mem := takeBlock heap.mem pFree cb }, pFree)

/-- The size `RTHeapOffsetAlloc` asks for. -/
def adjustSize (cb : Nat) : Nat := if cb < 16 then 16 else (cb + 15) % 2 ^ 64 / 16 * 16

def adjustAlignment (cbAlignment : Nat) : Nat :=
  if cbAlignment = 0 then 16 else if cbAlignment < 16 then 16 else cbAlignment

/-- `RTHeapOffsetAlloc`; the result is the offset of the user bytes. -/
def rtHeapOffsetAlloc (heap : OffsetHeap) (cb cbAlignment : Nat) :
    Option (OffsetHeap × Option Nat) :=
  (rtHeapOffsetAllocBlock heap (adjustSize cb) (adjustAlignment cbAlignment)).map
    fun (heap, pBlock) => (heap, if pBlock ≠ 0 then some (pBlock + 16) else none)

end Alloc

section Free

/-- The first free block from `pRight` on. -/
def findRight (mem : Words) : Nat → Nat → Option Nat
  | 0, _ => none
  | fuel + 1, pRight =>
      if pRight = 0 then some 0
      else if isFree mem pRight then some pRight
      else findRight mem fuel (mem (coreNextAt pRight))

/-- The free blocks on the left and on the right of `pFree`. -/
def findNeighbours (mem : Words) (pFree : Nat) : Option (Nat × Nat) :=
  if mem offFreeTailAt = 0 then some (0, 0)
  else
    (findRight mem (mem cbHeapAt) (mem (coreNextAt pFree))).map fun pRight =>
      (if pRight = 0 then mem offFreeTailAt else mem (offPrevAt pRight), pRight)

/-- Insert the block at the head of the free list. -/
def insertHead (mem : Words) (pFree pRight : Nat) : Words :=
  mem
  |>.store (fFlagsAt pFree) (fun mem => mem (fFlagsAt pFree) ||| 1)
  |>.store (offPrevAt pFree) (fun _ => 0)
  |>.store (offNextAt pFree) (fun _ => pRight)
  |>.storeOr (fun _ => pRight) offPrevAt offFreeTailAt (fun _ => pFree)
  |>.store offFreeHeadAt (fun _ => pFree)

/-- Link the block into the free list behind `pLeft`. -/
def linkBehind (mem : Words) (pFree pLeft pRight : Nat) : Words :=
  mem
  |>.store (fFlagsAt pFree) (fun mem => mem (fFlagsAt pFree) ||| 1)
  |>.store (offNextAt pFree) (fun _ => pRight)
  |>.store (offPrevAt pFree) (fun _ => pLeft)
  |>.store (offNextAt pLeft) (fun _ => pFree)
  |>.storeOr (fun _ => pRight) offPrevAt offFreeTailAt (fun _ => pFree)

/-- Merge the block with the free block on its left. -/
def mergeLeft (mem : Words) (pFree pLeft : Nat) : Words :=
  mem
  |>.store (coreNextAt pLeft) (fun mem => mem (coreNextAt pFree))
  |>.storeIf (fun mem => mem (coreNextAt pFree)) corePrevAt (fun _ => pLeft)
  |>.store cbFreeAt (fun mem => sub32 (mem cbFreeAt) (mem (cbAt pLeft)))

def linkFree (mem : Words) (pFree pLeft pRight : Nat) : Words × Nat :=
  if pLeft = 0 then (insertHead mem pFree pRight, pFree)
  else if mem (coreNextAt pLeft) = pFree then (mergeLeft mem pFree pLeft, pLeft)
  else (linkBehind mem pFree pLeft pRight, pFree)

/-- Merge the free block with the one on its right. -/
def mergeRight (mem : Words) (pFree pRight : Nat) : Words :=
  if pRight ≠ 0 ∧ mem (corePrevAt pRight) = pFree then
    mem
    |>.store (coreNextAt pFree) (fun mem => mem (coreNextAt pRight))
    |>.storeIf (fun mem => mem (coreNextAt pRight)) corePrevAt (fun _ => pFree)
    |>.store (offNextAt pFree) (fun mem => mem (offNextAt pRight))
    |>.storeOr (fun mem => mem (offNextAt pRight)) offPrevAt offFreeTailAt (fun _ => pFree)
    |>.store cbFreeAt (fun mem => sub32 (mem cbFreeAt) (mem (cbAt pRight)))
  else mem

/-- The size of the free block, and of the heap's free memory. -/
def addSize (mem : Words) (pFree : Nat) : Words :=
  mem
  |>.store (cbAt pFree) (fun mem => sub32 (sub32 (endOf mem (mem (coreNextAt pFree))) pFree) 16)
  |>.store cbFreeAt (fun mem => add32 (mem cbFreeAt) (mem (cbAt pFree)))

/-- `rtHeapOffsetFreeBlock` -/
def rtHeapOffsetFreeBlock (heap : OffsetHeap) (pBlock : Nat) : Option OffsetHeap :=
  (findNeighbours heap.mem pBlock).map fun (pLeft, pRight) =>
    if pLeft = pBlock then heap
    else
      let (mem, pFree) := linkFree heap.mem pBlock pLeft pRight
      { heap with mem := addSize (mergeRight mem pFree pRight) pFree }

/-- `RTHeapOffsetFree`; it has no result where `offSelf` is not that of the block, so that
it would take another address for the anchor. -/
def rtHeapOffsetFree (heap : OffsetHeap) (pv : Option Nat) : Option OffsetHeap :=
  match pv with
  | none => some heap
  | some pv =>
      let pBlock := pv - 16
      if heap.mem (offSelfAt pBlock) = pBlock then rtHeapOffsetFreeBlock heap pBlock else none

/-- `RTHeapOffsetSize` -/
def rtHeapOffsetSize (heap : OffsetHeap) (pv : Nat) : Nat :=
  let pBlock := pv - 16
  sub32 (sub32 (endOf heap.mem (heap.mem (coreNextAt pBlock))) pBlock) 16

end Free

end VBox.Runtime
