import VBox.Storage.Vhd.RepairRuns
import VBox.Storage.Vhd.Compact

/-!
Growing a VHD image.

`vhdResize` moves the blocks in front of the end of the new block allocation table to the end of the
file and writes the longer table. What `vhdDynamicHeaderUpdate` writes about the parent is given:
the bytes of the header from the parent's UUID on, and the data of the locators.
-/

namespace VBox.Storage.Vhd

open VBox.Lib

/-- A parent locator's space in the file, and what is rewritten at its start. -/
structure Locator where
  offset : Nat
  cbSpace : Nat
  cbWritten : Nat
  bytes : Buf
  within : cbWritten ≤ cbSpace

/-- What `VHDIMAGE` holds beside `VhdImage`, for the header, the footer and the parent. -/
structure HeaderInfo where
  u64DataOffset : Nat
  /-- The parent's name can be converted and every locator is of a kind that can be rewritten. -/
  fParentUpdates : Bool
  /-- The header from the parent's UUID on. -/
  parentBytes : Buf
  locators : List Locator
  /-- The geometry as the footer holds it. -/
  geometry : Buf

inductive ResizeError where
  | notSupported
  | eof
  deriving DecidableEq, Repr

/-! ### Flushing with the header -/

def headerCookie (header : Buf) : Bool :=
  (List.range 8).map header == [0x63, 0x78, 0x73, 0x70, 0x61, 0x72, 0x73, 0x65]

/-- The dynamic disk header for another number of table entries. -/
def newHeader (info : HeaderInfo) (ddh : Buf) (cEntries : Nat) : Buf :=
  sealed 36 cbHeader fun i =>
    if 28 ≤ i ∧ i < 32 then leByte cEntries (31 - i)
    else if i < 40 then ddh i
    else info.parentBytes i

/-- The writes of `vhdLocatorUpdate`. -/
def writeLocators (locators : List Locator) (file : ByteFile) : ByteFile :=
  locators.foldl (fun file locator => file.write locator.offset locator.cbWritten locator.bytes)
    file

/-- `vhdDynamicHeaderUpdate`; none where it leaves early, with no account of the locators it has
rewritten by then. -/
def vhdDynamicHeaderUpdate (info : HeaderInfo) (cEntries : Nat) (file : ByteFile) :
    Option ByteFile :=
  match file.read info.u64DataOffset cbHeader with
  | none => none
  | some ddh =>
    if headerCookie ddh && headerChecksum ddh && info.fParentUpdates then
      some ((writeLocators info.locators file).write info.u64DataOffset cbHeader
        (newHeader info ddh cEntries))
    else none

/-- The footer for a size and a geometry. -/
def newFooter (copy : Buf) (cbSize : Nat) (geometry : Buf) : Buf :=
  sealed 64 cbFooter fun i =>
    if 48 ≤ i ∧ i < 56 then leByte cbSize (55 - i)
    else if 56 ≤ i ∧ i < 60 then geometry (i - 56)
    else copy i

/-- `vhdFlushImage` with `fDynHdrNeedsUpdate` set. -/
def flushWithHeader (info : HeaderInfo) (disk : Disk) : Disk :=
  let written := disk.file.write disk.image.uBlockAllocationTableOffset
    (4 * disk.image.cBlockAllocationTableEntries) (tableBytes disk.image.blockAllocationTable)
  match vhdDynamicHeaderUpdate info disk.image.cBlockAllocationTableEntries written with
  | none => { disk with file := written }
  | some file =>
    vhdUpdateFooter
      { disk with
        file
        vhdFooterCopy := newFooter disk.vhdFooterCopy disk.image.cbSize info.geometry }

/-! ### Relocating blocks -/

/-- `RT_ALIGN_32` to sectors. -/
def align32 (value : Nat) : Nat := u32 (value + 511) / 512 * 512

/-- Where the data starts: the least offset of a block, each computed in 32 bits. -/
def offStartDataOld (image : VhdImage) : Nat :=
  (image.blocks.filter image.allocated).foldl
    (fun start block =>
      min start (u32 ((image.blockAllocationTable block).toNat * VHD_SECTOR_SIZE)))
    (2 ^ 64 - 1)

/-- Move the block that starts at `off`, if there is one, to the end of the file. -/
def relocateAt (off : Nat) (disk : Disk) : Bool × Disk :=
  let image := disk.image
  match image.blocks.find? fun block =>
    (image.blockAllocationTable block).toNat == u32 (off / VHD_SECTOR_SIZE) with
  | none => (true, disk)
  | some block =>
    match disk.file.read off (cbBlock image) with
    | none => (false, disk)
    | some buf =>
      (true,
        { disk with
          image :=
            { image with
              blockAllocationTable := Function.update image.blockAllocationTable block
                (UInt32.ofNat (image.uCurrentEndOfFile / VHD_SECTOR_SIZE))
              uCurrentEndOfFile := u64 (image.uCurrentEndOfFile + cbBlock image) }
          file := (disk.file.write image.uCurrentEndOfFile (cbBlock image) buf).write off
            (cbBlock image) fun _ => 0 })

/-- The relocation loop, until an access fails. -/
def relocate : Nat → Nat → Disk → Bool × Disk
  | 0, _, disk => (true, disk)
  | count + 1, off, disk =>
    match relocateAt off disk with
    | (false, disk) => (false, disk)
    | (true, disk) => relocate count (u64 (off + cbBlock disk.image)) disk

/-! ### Resizing -/

def cBlocksNew (image : VhdImage) (cbSize : Nat) : Nat :=
  if cbSize % image.cbDataBlock = 0 then u32 (cbSize / image.cbDataBlock)
  else u32 (cbSize / image.cbDataBlock + 1)

def offStartDataNew (image : VhdImage) (cbSize : Nat) : Nat :=
  align32 (image.uBlockAllocationTableOffset + align32 (cBlocksNew image cbSize * 4))

/-- How many steps of the size of a block lead over the new table. -/
def cBlocksReloc (image : VhdImage) (cbSize : Nat) : Nat :=
  let cbOverlapping := u64Sub (offStartDataNew image cbSize) (offStartDataOld image)
  min (u32 (cbOverlapping / cbBlock image + if cbOverlapping % cbBlock image = 0 then 0 else 1))
    (cBlocksAllocated image)

/-- The longer table, first written as it is in memory. -/
def extendTable (cbSize cNew : Nat) (disk : Disk) : Disk :=
  let table := fun block =>
    if disk.image.cBlockAllocationTableEntries ≤ block ∧ block < cNew then freeEntry
    else disk.image.blockAllocationTable block
  { disk with
    image :=
      { disk.image with
        blockAllocationTable := table
        cBlockAllocationTableEntries := cNew
        cbSize }
    file := disk.file.write disk.image.uBlockAllocationTableOffset (4 * cNew)
      fun i => host32 (table (i / 4)) (i % 4) }

/-- `vhdResize` up to the flush. -/
def growDisk (cbSize : Nat) (disk : Disk) : Option ResizeError × Disk :=
  let image := disk.image
  let (fRelocated, moved) :=
    if offStartDataOld image ≠ offStartDataNew image cbSize ∧ 0 < cBlocksAllocated image then
      relocate (cBlocksReloc image cbSize) (offStartDataOld image) disk
    else (true, disk)
  if fRelocated then (none, extendTable cbSize (cBlocksNew image cbSize) moved)
  else (some .eof, moved)

/-- `vhdResize`. -/
def vhdResize (info : HeaderInfo) (cbSize : Nat) (disk : Disk) : Option ResizeError × Disk :=
  if cbSize < disk.image.cbSize ∨ disk.image.fDynamic = false then (some .notSupported, disk)
  else if disk.image.cbSize < cbSize then
    let (rc, disk) := growDisk cbSize disk
    (rc, flushWithHeader info disk)
  else (none, disk)

/-! ### Opening the file again -/

/-- What the open path finds in a file. -/
def fileOf (file : ByteFile) : VhdFile :=
  let decode := fun footer : Buf =>
    { fCookie := fCookie footer
      diskType := UInt32.ofNat (diskType footer)
      curSize := UInt64.ofNat (beNat 8 (footer.drop 48))
      dataOffset := UInt64.ofNat (dataOffset footer) : VhdFooter }
  { openFile := .ok ()
    cbFile := file.size
    footer := if cbFooter ≤ file.size then .ok (decode (lastSector file)) else .error .io
    backupFooter := if cbFooter ≤ file.size then .ok (decode file.byte) else .error .io
    dynamicHeader := fun off =>
      let header := file.byte.drop off.toNat
      { fCookie := headerCookie header
        tableOffset := UInt64.ofNat (tableOffset header)
        maxTableEntries := UInt32.ofNat (maxTableEntries header)
        blockSize := UInt32.ofNat (blockSize header) }
    allocBitmap := true
    allocTable := true
    readTable := .ok ()
    allocHostTable := true
    table := fun block => UInt32.ofNat (batEntry
      (file.byte.drop (tableOffset (file.byte.drop (dataOffset (lastSector file))))) block) }

end VBox.Storage.Vhd
