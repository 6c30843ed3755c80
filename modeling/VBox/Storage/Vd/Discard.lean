import VBox.Storage.Vdi.Discard

/-!
Discard requests of a virtual disk over a VDI image.

A part of a block that the backend does not give up yet is recorded with a bitmap of the
sectors that still hold data. A record is handed to the backend as a whole when its last
sector has been discarded; a record that is evicted has its free sectors marked as unused.
The I/O is done at once, and memory is always there.
-/

namespace VBox.Storage.Vd

open VBox.Lib VBox.Storage.Vdi

/-- `VD_DISCARD_REMOVE_THRESHOLD` -/
def vdDiscardRemoveThreshold : Nat := 10 * 2 ^ 20

/-- `VDDISCARDBLOCK`: the bytes from `key` on, with a bit for each sector. -/
structure VdDiscardBlock where
  key : Nat
  cbDiscard : Nat
  pbmAllocated : Nat → Bool

def VdDiscardBlock.covers (pBlock : VdDiscardBlock) (off : Nat) : Bool :=
  pBlock.key ≤ off && off < pBlock.key + pBlock.cbDiscard

/-- `ASMBitFirstSet` finds nothing. -/
def VdDiscardBlock.isEmpty (pBlock : VdDiscardBlock) : Bool :=
  (List.range (pBlock.cbDiscard / 512)).all fun i => !pBlock.pbmAllocated i

/-- `ASMBitNextClear` and `ASMBitNextSet`: the next bit of a kind behind `idxStart`. -/
def VdDiscardBlock.nextBit (pBlock : VdDiscardBlock) (isSet : Bool) (idxStart : Nat) :
    Option Nat :=
  (List.range (pBlock.cbDiscard / 512)).find? fun i =>
    idxStart < i && pBlock.pbmAllocated i == isSet

/-- `ASMBitClearRange` -/
def VdDiscardBlock.clearRange (pBlock : VdDiscardBlock) (idxStart idxEnd : Nat) :
    VdDiscardBlock :=
  ⟨pBlock.key, pBlock.cbDiscard,
    fun i => pBlock.pbmAllocated i && !(idxStart ≤ i && i < idxEnd)⟩

/-- The sectors of the record in a range are marked as allocated. -/
def VdDiscardBlock.setAllocated (pBlock : VdDiscardBlock) (uOffset cbRange : Nat) :
    VdDiscardBlock :=
  ⟨pBlock.key, pBlock.cbDiscard, fun i => pBlock.pbmAllocated i ||
    (uOffset ≤ pBlock.key + 512 * i && pBlock.key + 512 * i < uOffset + cbRange)⟩

/-- The disk with its discard state and the discard request under way. The blocks stand as
in `ListLru`, the most recently used first; the tree holds the same blocks. `handed` are
the ranges that `pfnDiscard` has been called with, `failed` what requests have failed
with. -/
structure VdDisk where
  image : VdiImage
  listLru : List VdDiscardBlock
  cbDiscarding : Nat
  paRanges : List (Nat × Nat)
  offCur : Nat
  cbDiscardLeft : Nat
  handed : List (Nat × Nat)
  failed : List Status

namespace VdDisk

/-- `pfnDiscard` -/
def pfnDiscard (s : VdDisk) (uOffset cbDiscard : Nat) (fMarkUnused : Bool) :
    Option (DiscardResult × VdDisk) :=
  (vdiDiscard s.image uOffset cbDiscard fMarkUnused).map fun result =>
    (result, { s with image := result.image, handed := s.handed ++ [(uOffset, cbDiscard)] })

/-- Mark the free sectors of a record as unused: the inner loop of `vdDiscardRemoveBlocks`
and of its version for async I/O. -/
def markUnused (pBlock : VdDiscardBlock) :
    Nat → VdDisk → Nat → Option Nat → Nat → Bool → Option (Status × VdDisk)
  | _, s, _, _, 0, _ => some (.vinfSuccess, s)
  | fuel + 1, s, offStart, some idxStart, cbLeft + 1, fAllocated =>
      let idxEnd := pBlock.nextBit (!fAllocated) idxStart
      let cbThis := match idxEnd with
        | some idxEnd => (idxEnd - idxStart) * 512
        | none => cbLeft + 1
      if fAllocated then
        markUnused pBlock fuel s (offStart + cbThis) idxEnd (cbLeft + 1 - cbThis) idxEnd.isNone
      else
        match s.pfnDiscard offStart cbThis true with
        | none => none
        | some (result, s) =>
            if result.rc ≠ .vinfSuccess then some (result.rc, s)
            else
              match result.pcbActuallyDiscarded with
              | none => none
              | some cbThis =>
                  markUnused pBlock fuel s (offStart + cbThis) idxEnd (cbLeft + 1 - cbThis) true
  | _, _, _, _, _ + 1, _ => none

/-- `vdDiscardRemoveBlocks` and `vdDiscardRemoveBlocksAsync`. -/
def removeBlocks (cbDiscardingNew : Nat) : Nat → VdDisk → Option (Status × VdDisk)
  | fuel, s =>
      if s.cbDiscarding ≤ cbDiscardingNew then some (.vinfSuccess, s)
      else
        match fuel, s.listLru.getLast? with
        | fuel + 1, some pBlock =>
            match markUnused pBlock (pBlock.cbDiscard / 512 + 1) s pBlock.key (some 0)
                pBlock.cbDiscard (pBlock.pbmAllocated 0) with
            | none => none
            | some (rc, s) =>
                if rc ≠ .vinfSuccess then some (rc, s)
                else removeBlocks cbDiscardingNew fuel
                  { s with listLru := s.listLru.dropLast
                           cbDiscarding := s.cbDiscarding - pBlock.cbDiscard }
        | _, _ => none

/-- Go on behind what has been discarded. -/
def advance (s : VdDisk) (cb : Nat) : VdDisk :=
  { s with offCur := s.offCur + cb, cbDiscardLeft := s.cbDiscardLeft - cb }

/-- `vdDiscardCurrentRangeAsync` -/
def discardCurrentRange (s : VdDisk) (cbThisDiscard : Nat) : Option (Status × VdDisk) :=
  match s.pfnDiscard s.offCur cbThisDiscard false with
  | none => none
  | some (result, s) =>
      match result.rc, result.pcbActuallyDiscarded with
      | .verrVdDiscardAlignmentNotMet, some cbThisDiscard =>
          match result.pcbPreAllocated, result.pcbPostAllocated, result.pbmAllocationBitmap with
          | some cbPreAllocated, some cbPostAllocated, some pbmAllocated =>
              let pBlock : VdDiscardBlock := ⟨s.offCur - cbPreAllocated,
                cbPreAllocated + cbThisDiscard + cbPostAllocated, pbmAllocated⟩
              let s := { s.advance cbThisDiscard with
                listLru := pBlock :: s.listLru
                cbDiscarding := s.cbDiscarding + pBlock.cbDiscard }
              if vdDiscardRemoveThreshold < s.cbDiscarding then
                s.removeBlocks vdDiscardRemoveThreshold s.listLru.length
              else some (.vinfSuccess, s)
          | _, _, _ => none
      | .vinfSuccess, some cbThisDiscard => some (.vinfSuccess, s.advance cbThisDiscard)
      | .vinfSuccess, none => none
      | rc, _ => some (rc, s)

/-- `vdDiscardWholeBlockAsync` for the block at `idx` of the list. -/
def discardWholeBlock (s : VdDisk) (idx : Nat) (pBlock : VdDiscardBlock) :
    Option (Status × VdDisk) :=
  match s.pfnDiscard pBlock.key pBlock.cbDiscard false with
  | none => none
  | some (result, s) =>
      if result.rc = .vinfSuccess then
        some (.vinfSuccess, { s with
          listLru := s.listLru.eraseIdx idx
          cbDiscarding := s.cbDiscarding - pBlock.cbDiscard })
      else some (result.rc, s)

/-- The start of the next block at or behind an offset, by its last byte. -/
def blockAboveLast (s : VdDisk) (off : Nat) : Option Nat :=
  ((s.listLru.filter fun b => off ≤ b.key).map fun b => b.key + b.cbDiscard - 1).min?

/-- How much of the range is discarded where no block is on record. -/
def cbThisDiscard (s : VdDisk) : Nat :=
  match s.blockAboveLast s.offCur with
  | some keyLast => min s.cbDiscardLeft (keyLast - s.offCur + 1)
  | none => s.cbDiscardLeft

/-- `vdDiscardHelperAsync` with a range at hand, and the function it goes on with. -/
def discardHelper (s : VdDisk) : Option (Status × VdDisk) :=
  match s.listLru.findIdx? fun b => b.covers s.offCur with
  | none => s.discardCurrentRange s.cbThisDiscard
  | some idx =>
      match s.listLru[idx]? with
      | none => none
      | some pBlock =>
          let cbThisDiscard := min s.cbDiscardLeft (pBlock.key + pBlock.cbDiscard - s.offCur)
          let idxStart := (s.offCur - pBlock.key) / 512
          let pBlock := pBlock.clearRange idxStart (idxStart + cbThisDiscard / 512)
          let s := s.advance cbThisDiscard
          if pBlock.isEmpty then
            ({ s with listLru := s.listLru.set idx pBlock } : VdDisk).discardWholeBlock idx pBlock
          else some (.vinfSuccess, { s with listLru := pBlock :: s.listLru.eraseIdx idx })

/-- The next range is taken up where the last one is done. -/
def loadRange (s : VdDisk) : VdDisk :=
  match s.cbDiscardLeft, s.paRanges with
  | 0, (offStart, cbRange) :: paRanges =>
      { s with offCur := offStart, cbDiscardLeft := cbRange, paRanges := paRanges }
  | _, _ => s

def isIdle (s : VdDisk) : Bool := s.cbDiscardLeft = 0 && s.paRanges.isEmpty

/-- A request that has failed is given up. -/
def finish (outcome : Status × VdDisk) : VdDisk :=
  if outcome.1 = .vinfSuccess then outcome.2
  else { outcome.2 with
    paRanges := [], cbDiscardLeft := 0, failed := outcome.2.failed ++ [outcome.1] }

/-- `vdDiscardSetRangeAllocated` for whole sectors. -/
def discardSetRangeAllocated (s : VdDisk) (uOffset cbRange : Nat) : VdDisk :=
  { s with listLru := s.listLru.map fun b => b.setAllocated uOffset cbRange }

end VdDisk

inductive VdLabel where
  | discard (paRanges : List (Nat × Nat))
  /-- A round of `vdDiscardHelperAsync` and what it goes on with. -/
  | round
  | write (uOffset cbWrite : Nat) (data : Buf) (fNoAlloc : Bool)
  /-- `vdDiscardStateDestroy` -/
  | destroy

/-- A range of whole sectors inside the disk that is not empty. -/
def ValidRange (image : VdiImage) (r : Nat × Nat) : Prop :=
  512 ∣ r.1 ∧ 512 ∣ r.2 ∧ 0 < r.2 ∧ r.1 + r.2 ≤ getImageDiskSize image.header

inductive VdStep (s : VdDisk) : VdLabel → VdDisk → Prop where
  | discard {paRanges : List (Nat × Nat)} (idle : s.isIdle = true)
      (valid : ∀ r ∈ paRanges, ValidRange s.image r) :
      VdStep s (.discard paRanges) { s with paRanges := paRanges }
  | round {outcome : Status × VdDisk} (busy : s.isIdle = false)
      (returns : s.loadRange.discardHelper = some outcome) :
      VdStep s .round (VdDisk.finish outcome)
  | write {uOffset cbWrite : Nat} {data : Buf} {fNoAlloc : Bool} {result : WriteResult}
      (sectors : 512 ∣ uOffset ∧ 512 ∣ cbWrite)
      (returns : vdiWrite s.image uOffset cbWrite data fNoAlloc = some result) :
      VdStep s (.write uOffset cbWrite data fNoAlloc)
        (({ s with image := result.image } : VdDisk).discardSetRangeAllocated uOffset cbWrite)
  | destroy {outcome : Status × VdDisk} (idle : s.isIdle = true)
      (returns : s.removeBlocks 0 s.listLru.length = some outcome) :
      VdStep s .destroy (VdDisk.finish outcome)

/-- A disk over an image that has just been opened. -/
def VdDisk.opened (image : VdiImage) : VdDisk := ⟨image, [], 0, [], 0, 0, [], []⟩

end VBox.Storage.Vd
