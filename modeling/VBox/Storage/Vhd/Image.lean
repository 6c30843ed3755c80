import VBox.Storage.Basic

/-!
A VHD image: what the open path takes from the footer and the dynamic disk header, and where
`vhdRead` and `vhdWrite` index with it.

The functions of an access leave a trace of every division, table access, clipping and bitmap
access they make. The contents of a block's bitmap and the outcomes of transfers are parameters.
-/

namespace VBox.Storage.Vhd

def VHD_SECTOR_SIZE : Nat := 512
def VHD_FOOTER_DISK_TYPE_FIXED : Nat := 2
def VHD_FOOTER_DISK_TYPE_DYNAMIC : Nat := 3
def VHD_FOOTER_DISK_TYPE_DIFFERENCING : Nat := 4

/-- An entry of the block allocation table without a block. -/
def freeEntry : UInt32 := 0xffffffff

/-- The fields of `VHDFooter` the open path looks at, in host order. -/
structure VhdFooter where
  fCookie : Bool
  diskType : UInt32
  curSize : UInt64
  dataOffset : UInt64

/-- The fields of `VHDDynamicDiskHeader` the open path looks at, in host order. -/
structure VhdDynamicDiskHeader where
  fCookie : Bool
  tableOffset : UInt64
  maxTableEntries : UInt32
  blockSize : UInt32

inductive Error where
  | io
  | noMemory
  | invalidParameter
  | invalidHeader
  | imageCorrupted
  | notImplemented
  deriving DecidableEq, Repr

/-- What the file holds and the host answers while an image is opened. -/
structure VhdFile where
  openFile : Except Error Unit
  cbFile : Nat
  footer : Except Error VhdFooter
  /-- The copy at the start of the file. -/
  backupFooter : Except Error VhdFooter
  /-- Whatever is at the data offset; a failed read is not noticed. -/
  dynamicHeader : UInt64 → VhdDynamicDiskHeader
  allocBitmap : Bool
  allocTable : Bool
  readTable : Except Error Unit
  allocHostTable : Bool
  table : Nat → UInt32

/-- `VHDIMAGE`, as far as an access depends on it. Beyond its entries the table is memory that is
not the image's. -/
structure VhdImage where
  cbSize : Nat
  fDynamic : Bool
  blockAllocationTable : Nat → UInt32
  cBlockAllocationTableEntries : Nat
  cbDataBlock : Nat
  cSectorsPerDataBlock : Nat
  cbDataBlockBitmap : Nat
  cDataBlockBitmapSectors : Nat
  uCurrentEndOfFile : Nat
  uBlockAllocationTableOffset : Nat

/-! ### Open -/

/-- The image of a fixed disk. -/
def fixedImage (file : VhdFile) (footer : VhdFooter) : VhdImage :=
  { cbSize := footer.curSize.toNat
    fDynamic := false
    blockAllocationTable := fun _ => freeEntry
    cBlockAllocationTableEntries := 0
    cbDataBlock := 0
    cSectorsPerDataBlock := 0
    cbDataBlockBitmap := 0
    cDataBlockBitmapSectors := 0
    uCurrentEndOfFile := u64Sub file.cbFile VHD_SECTOR_SIZE
    uBlockAllocationTableOffset := 0 }

/-- `vhdLoadDynamicDisk`. That the block size is a multiple of the sector size is only asserted. -/
def vhdLoadDynamicDisk (file : VhdFile) (image : VhdImage) (uDynamicDiskHeaderOffset : UInt64) :
    Except Error VhdImage :=
  let header := file.dynamicHeader uDynamicDiskHeaderOffset
  if !header.fCookie then .error .invalidParameter
  else
    let cbDataBlock := header.blockSize.toNat
    let cSectorsPerDataBlock := cbDataBlock / VHD_SECTOR_SIZE
    let cbDataBlockBitmap := cSectorsPerDataBlock / 8
    let cDataBlockBitmapSectors := cbDataBlockBitmap / VHD_SECTOR_SIZE +
      if 0 < cbDataBlockBitmap % VHD_SECTOR_SIZE then 1 else 0
    if !(file.allocBitmap && file.allocTable && file.allocHostTable) then .error .noMemory
    else
      match file.readTable with
      | .error error => .error error
      | .ok () =>
        .ok { image with
          fDynamic := true
          blockAllocationTable := file.table
          cBlockAllocationTableEntries := header.maxTableEntries.toNat
          cbDataBlock
          cSectorsPerDataBlock
          cbDataBlockBitmap
          cDataBlockBitmapSectors
          uBlockAllocationTableOffset := header.tableOffset.toNat }

/-- `vhdOpenImage`. -/
def vhdOpenImage (file : VhdFile) : Except Error VhdImage :=
  match file.openFile with
  | .error error => .error error
  | .ok () =>
    match file.footer with
    | .error error => .error error
    | .ok footer =>
      if !footer.fCookie then
        match file.backupFooter with
        | .error error => .error error
        | .ok backup => if backup.fCookie then .error .imageCorrupted else .error .invalidHeader
      else if footer.diskType.toNat = VHD_FOOTER_DISK_TYPE_FIXED then
        .ok (fixedImage file footer)
      else if footer.diskType.toNat = VHD_FOOTER_DISK_TYPE_DYNAMIC ∨
          footer.diskType.toNat = VHD_FOOTER_DISK_TYPE_DIFFERENCING then
        vhdLoadDynamicDisk file (fixedImage file footer) footer.dataOffset
      else .error .notImplemented

/-! ### Accesses -/

/-- A step of an access that can go wrong. -/
inductive Event where
  | divide (divisor : Nat)
  /-- An entry of the block allocation table. -/
  | table (index : Nat)
  /-- The rest of the block computed from the bytes before it, and the clipped length. -/
  | clip (cbBefore cbClipped : Nat)
  /-- A sector's bit in a block's bitmap. -/
  | bitmap (sector : Nat)
  deriving DecidableEq, Repr

/-- The step stays inside what it accesses. -/
def Event.Safe (image : VhdImage) : Event → Prop
  | .divide divisor => divisor ≠ 0
  | .table index => index < image.cBlockAllocationTableEntries
  | .clip cbBefore cbClipped => cbBefore ≤ image.cbDataBlock ∧ cbClipped % VHD_SECTOR_SIZE = 0
  | .bitmap sector => sector / 8 < image.cbDataBlockBitmap

instance (image : VhdImage) (event : Event) : Decidable (event.Safe image) := by
  cases event <;> unfold Event.Safe <;> infer_instance

/-- The rest of a block behind a sector, computed in 32 bits. -/
def restOfBlock (image : VhdImage) (cBATEntryIndex : Nat) : Nat :=
  u32Sub image.cbDataBlock (u32 (cBATEntryIndex * VHD_SECTOR_SIZE))

/-- The look-ahead loops of `vhdRead`: over the sectors whose bit is like the first one's. -/
def lookAhead (fSectorSet : Nat → Bool) (fFirst : Bool) : Nat → Nat → List Event
  | 0, _ => []
  | count + 1, cBATEntryIndex =>
    .bitmap cBATEntryIndex ::
      if fSectorSet cBATEntryIndex = fFirst then
        lookAhead fSectorSet fFirst count (cBATEntryIndex + 1)
      else []

/-- The bitmap accesses of `vhdRead` in an allocated block, once its bitmap has been read. -/
def readBitmap (fSectorSet : Nat → Bool) (cBATEntryIndex cbRead : Nat) : List Event :=
  .bitmap cBATEntryIndex ::
    lookAhead fSectorSet (fSectorSet cBATEntryIndex) (cbRead / VHD_SECTOR_SIZE - 1)
      (cBATEntryIndex + 1)

/-- `vhdRead`. -/
def vhdRead (image : VhdImage) (uOffset cbRead : Nat) (fBitmapRead : Bool)
    (fSectorSet : Nat → Bool) : List Event :=
  if image.cbSize < u64 (uOffset + cbRead) ∨ image.fDynamic = false then []
  else if image.cSectorsPerDataBlock = 0 then [.divide 0]
  else
    let cBlockAllocationTableEntry :=
      u32 (uOffset / VHD_SECTOR_SIZE / image.cSectorsPerDataBlock)
    let cBATEntryIndex := u32 (uOffset / VHD_SECTOR_SIZE % image.cSectorsPerDataBlock)
    let cbClipped := min cbRead (restOfBlock image cBATEntryIndex)
    [.divide image.cSectorsPerDataBlock,
        .clip (u32 (cBATEntryIndex * VHD_SECTOR_SIZE)) cbClipped,
        .table cBlockAllocationTableEntry] ++
      if image.blockAllocationTable cBlockAllocationTableEntry = freeEntry then []
      else if fBitmapRead then readBitmap fSectorSet cBATEntryIndex cbClipped
      else []

/-- The bits `vhdWrite` sets. -/
def setBitmap (cBATEntryIndex cSectors : Nat) : List Event :=
  (List.range cSectors).map fun iSector => .bitmap (cBATEntryIndex + iSector)

/-- `vhdWrite`; `fNoAlloc` is `VD_WRITE_NO_ALLOC`, `fAlloc` the outcome of the
allocation of the expansion state. -/
def vhdWrite (image : VhdImage) (uOffset cbWrite : Nat)
    (fNoAlloc fAlloc fBitmapRead fUserWrite : Bool) : List Event :=
  if image.fDynamic = false then []
  else if image.cSectorsPerDataBlock = 0 then [.divide 0]
  else
    let cSector := u32 (uOffset / VHD_SECTOR_SIZE)
    let cBlockAllocationTableEntry := cSector / image.cSectorsPerDataBlock
    let cBATEntryIndex := cSector % image.cSectorsPerDataBlock
    let cbClipped := min cbWrite (restOfBlock image cBATEntryIndex)
    [.divide image.cSectorsPerDataBlock,
        .clip (u32 (cBATEntryIndex * VHD_SECTOR_SIZE)) cbClipped,
        .table cBlockAllocationTableEntry] ++
      if image.blockAllocationTable cBlockAllocationTableEntry = freeEntry then
        if fNoAlloc ∨ cbClipped ≠ image.cbDataBlock ∨ fAlloc = false then []
        else setBitmap cBATEntryIndex (cbClipped / VHD_SECTOR_SIZE)
      else if fBitmapRead && fUserWrite then
        setBitmap cBATEntryIndex (cbClipped / VHD_SECTOR_SIZE)
      else []

end VBox.Storage.Vhd
