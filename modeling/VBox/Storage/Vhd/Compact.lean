import VBox.Storage.Vhd.Expand

/-!
Compacting a VHD image.

`vhdCompact` drops the blocks whose data is redundant and fills the holes with the last blocks of
the file. Host accesses succeed where they stay in the file. What the flush writes to the dynamic
disk header and the percentages handed to the progress callback are left out; `vhdFooterCopy` is the
footer as `vhdUpdateFooter` completes it.
-/

namespace VBox.Storage.Vhd

open VBox.Lib

inductive CompactError where
  | readOnly
  | notSupported
  | invalidState
  | eof
  | cancelled
  deriving DecidableEq, Repr

/-- What `vhdCompact` asks its caller for. -/
structure CompactHost where
  fReadOnly : Bool
  /-- The parent's data of a block, if there is `pfnParentRead`. -/
  parent : Option (Nat → Buf)
  /-- Whether the progress callback fails, by the number of the call. -/
  cancels : Nat → Bool

/-- The image and the variables of `vhdCompact` that change with it. -/
structure CompactState where
  disk : Disk
  /-- The block at each position of the file; none for `~0U`. -/
  paBlocks : Nat → Option Nat
  uBlockUsedPos : Nat

/-- A block is allocated. -/
def VhdImage.allocated (image : VhdImage) (block : Nat) : Bool :=
  image.blockAllocationTable block != freeEntry

def VhdImage.blocks (image : VhdImage) : List Nat := List.range image.cBlockAllocationTableEntries

def cBlocksAllocated (image : VhdImage) : Nat := (image.blocks.filter image.allocated).length

/-- The first sector of the data blocks. -/
def offBlocksStart (image : VhdImage) : Nat :=
  (image.blocks.filter image.allocated).foldl
    (fun start block => min start (image.blockAllocationTable block).toNat) freeEntry.toNat

/-- The position of a block in the file. -/
def idxBlock (image : VhdImage) (start block : Nat) : Nat :=
  ((image.blockAllocationTable block).toNat - start) / image.cSectorsPerDataBlock

/-- Fill the back resolving table; none for `VERR_INVALID_STATE`. -/
def backResolve (image : VhdImage) (start cBlocks : Nat) :
    List Nat → (Nat → Option Nat) → Option (Nat → Option Nat)
  | [], paBlocks => some paBlocks
  | block :: rest, paBlocks =>
    if image.allocated block then
      if idxBlock image start block < cBlocks ∧ paBlocks (idxBlock image start block) = none then
        backResolve image start cBlocks rest
          (Function.update paBlocks (idxBlock image start block) (some block))
      else none
    else backResolve image start cBlocks rest paBlocks

/-! ### Redundant blocks -/

/-- The first `cb` bytes of two buffers are equal. -/
def memEqual (a b : Buf) (cb : Nat) : Bool := (List.range cb).all fun i => a i == b i

/-- The bytes `ASMBitFirstSet` looks at; their bits are counted in 32 bits. -/
def cbTested (cb : Nat) : Nat := u32 (cb * 8) / 8

/-- The data is zero or what the parent has. -/
def redundantData (host : CompactHost) (block : Nat) (buf : Buf) (cb : Nat) : Bool :=
  buf.isZero (cbTested cb) || host.parent.any fun parent => memEqual (parent block) buf cb

/-- Where the data of a block starts. -/
def blockDataOffset (image : VhdImage) (block : Nat) : Nat :=
  ((image.blockAllocationTable block).toNat + image.cDataBlockBitmapSectors) * VHD_SECTOR_SIZE

/-- Whether a block is redundant; none where its data cannot be read. -/
def redundant (host : CompactHost) (disk : Disk) (block : Nat) : Option Bool :=
  if disk.image.allocated block then
    (disk.file.read (blockDataOffset disk.image block) disk.image.cbDataBlock).map fun buf =>
      redundantData host block buf disk.image.cbDataBlock
  else some false

def CompactState.setEntry (s : CompactState) (block : Nat) (entry : UInt32) : CompactState :=
  { s with
    disk :=
      { s.disk with
        image :=
          { s.disk.image with
            blockAllocationTable :=
              Function.update s.disk.image.blockAllocationTable block entry } } }

/-- Free a block and leave a bubble at its position. -/
def freeBlock (start : Nat) (s : CompactState) (block : Nat) : CompactState :=
  { s.setEntry block freeEntry with
    paBlocks := Function.update s.paBlocks (idxBlock s.disk.image start block) none }

/-- The loop that frees redundant blocks. -/
def dropRedundant (host : CompactHost) (start : Nat) :
    List Nat → CompactState → Option CompactError × CompactState
  | [], s => (none, s)
  | block :: rest, s =>
    match redundant host s.disk block with
    | none => (some .eof, s)
    | some drop =>
      let s := if drop then freeBlock start s block else s
      if host.cancels block then (some .cancelled, s) else dropRedundant host start rest s

/-! ### Filling bubbles -/

/-- The size of a block with its bitmap. -/
def cbBlock (image : VhdImage) : Nat := image.cbDataBlock + image.cbDataBlockBitmap

/-- Where a position is in the file. -/
def positionOffset (image : VhdImage) (start position : Nat) : Nat :=
  position * cbBlock image + u32 (start * VHD_SECTOR_SIZE)

/-- `vhdUpdateFooter`. -/
def vhdUpdateFooter (disk : Disk) : Disk :=
  { disk with
    file := (disk.file.write 0 cbFooter disk.vhdFooterCopy).write disk.image.uCurrentEndOfFile
      cbFooter disk.vhdFooterCopy }

/-- The last position below `used` with a block, not looking below `i`. -/
def lastUsed (paBlocks : Nat → Option Nat) (i : Nat) : Nat → Nat × Option Nat
  | 0 => (0, none)
  | used + 1 =>
    if i < used + 1 then
      match paBlocks used with
      | some block => (used, some block)
      | none => lastUsed paBlocks i used
    else (used + 1, none)

/-- Move a block to an earlier position and shorten the file by one block. -/
def moveBlock (start : Nat) (s : CompactState) (i used block : Nat) (buf : Buf) : CompactState :=
  let image := s.disk.image
  let moved := s.setEntry block
    (UInt32.ofNat (i * (image.cSectorsPerDataBlock + image.cDataBlockBitmapSectors) + start))
  { disk := vhdUpdateFooter
      { moved.disk with
        image :=
          { moved.disk.image with
            uCurrentEndOfFile := u64Sub image.uCurrentEndOfFile (cbBlock image) }
        file :=
          (s.disk.file.write (positionOffset image start i) (cbBlock image) buf).setSize
            (u64 (u64Sub image.uCurrentEndOfFile (cbBlock image) + VHD_SECTOR_SIZE)) }
    paBlocks := Function.update (Function.update s.paBlocks i (some block)) used none
    uBlockUsedPos := used }

/-- The loop that fills the bubbles; `calls` progress calls have been made before it. -/
def fillBubbles (host : CompactHost) (start calls : Nat) :
    List Nat → CompactState → Option CompactError × CompactState
  | [], s => (none, s)
  | i :: rest, s =>
    match s.paBlocks i with
    | some _ =>
      if host.cancels (calls + i) then (some .cancelled, s)
      else fillBubbles host start calls rest s
    | none =>
      match lastUsed s.paBlocks i s.uBlockUsedPos with
      | (used, none) => (none, { s with uBlockUsedPos := used })
      | (used, some block) =>
        match s.disk.file.read (positionOffset s.disk.image start used)
            (cbBlock s.disk.image) with
        | none => (some .eof, { s with uBlockUsedPos := used })
        | some buf =>
          let s := moveBlock start s i used block buf
          if host.cancels (calls + i) then (some .cancelled, s)
          else fillBubbles host start calls rest s

/-! ### The whole function -/

/-- The table as it is written to the file. -/
def tableBytes (table : Nat → UInt32) : Buf := fun i => be32 (table (i / 4)) (i % 4)

/-- `vhdFlushImage`: the table, then the footer. -/
def vhdFlushImage (disk : Disk) : Disk :=
  vhdUpdateFooter
    { disk with
      file := disk.file.write disk.image.uBlockAllocationTableOffset
        (4 * disk.image.cBlockAllocationTableEntries) (tableBytes disk.image.blockAllocationTable) }

/-- The result, with the status of the loops, which the flush replaces. -/
structure CompactResult where
  rc : Option CompactError
  rcLoops : Option CompactError
  disk : Disk

/-- `vhdCompact`. -/
def vhdCompact (host : CompactHost) (disk : Disk) : CompactResult :=
  let image := disk.image
  let start := offBlocksStart image
  let cBlocks := cBlocksAllocated image
  if host.fReadOnly then ⟨some .readOnly, some .readOnly, disk⟩
  else if image.fDynamic = false then ⟨some .notSupported, some .notSupported, disk⟩
  else if cBlocks = 0 then ⟨none, none, disk⟩
  else
    match backResolve image start cBlocks image.blocks fun _ => none with
    | none => ⟨some .invalidState, some .invalidState, disk⟩
    | some paBlocks =>
      let (rcLoops, s) :=
        match dropRedundant host start image.blocks ⟨disk, paBlocks, cBlocks⟩ with
        | (none, s) => fillBubbles host start image.cBlockAllocationTableEntries
            (List.range cBlocks) s
        | (some rc, s) => (some rc, s)
      -- the status of the flush replaces whatever the loops came to
      ⟨none, rcLoops, vhdFlushImage s.disk⟩

end VBox.Storage.Vhd
