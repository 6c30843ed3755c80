import VBox.Storage.Vhd.ResizeFlush
import VBox.Storage.Vhd.CompactRuns

/-!
When growing an image keeps the disk.

`Resizable` says which images are grown as they should be: the blocks in front of the end of the new
table are found by the steps of the loop, and the new table ends in front of the old end of the
file.
-/

namespace VBox.Storage.Vhd

open VBox.Lib

/-! ### Opening the file again -/

/-- The image that is opened is the one that was flushed. -/
structure SameImage (image opened : VhdImage) : Prop where
  dynamic : opened.fDynamic = true
  cbSize : opened.cbSize = image.cbSize
  entries : opened.cBlockAllocationTableEntries = image.cBlockAllocationTableEntries
  data : opened.cbDataBlock = image.cbDataBlock
  sectors : opened.cSectorsPerDataBlock = image.cSectorsPerDataBlock
  bitmap : opened.cbDataBlockBitmap = image.cbDataBlockBitmap
  bitmapSectors : opened.cDataBlockBitmapSectors = image.cDataBlockBitmapSectors
  eof : opened.uCurrentEndOfFile = image.uCurrentEndOfFile
  offset : opened.uBlockAllocationTableOffset = image.uBlockAllocationTableOffset
  table : ∀ block < image.cBlockAllocationTableEntries,
    opened.blockAllocationTable block = image.blockAllocationTable block

/-- The footer and the header describe the image. -/
structure Described (info : HeaderInfo) (disk : Disk) : Prop where
  cookie : fCookie disk.vhdFooterCopy = true
  type : fDynamicType disk.vhdFooterCopy = true
  dataOffset : dataOffset disk.vhdFooterCopy = info.u64DataOffset
  tableOffset : tableOffset (disk.file.byte.drop info.u64DataOffset) =
    disk.image.uBlockAllocationTableOffset
  blockSize : blockSize (disk.file.byte.drop info.u64DataOffset) = disk.image.cbDataBlock
  entries : disk.image.cBlockAllocationTableEntries < 2 ^ 32
  cbSize : disk.image.cbSize < 2 ^ 64
  sectors : disk.image.cSectorsPerDataBlock = disk.image.cbDataBlock / VHD_SECTOR_SIZE
  bitmap : disk.image.cbDataBlockBitmap = disk.image.cSectorsPerDataBlock / 8
  bitmapSectors : disk.image.cDataBlockBitmapSectors =
    disk.image.cbDataBlockBitmap / VHD_SECTOR_SIZE +
      if 0 < disk.image.cbDataBlockBitmap % VHD_SECTOR_SIZE then 1 else 0

section Opening

variable {info : HeaderInfo} {disk after : Disk}

theorem Described.flushed (described : Described info disk) (flushed : Flushed info disk after) :
    Described info after := by
  obtain ⟨ddh, same, header⟩ := flushed.header
  have agree : ∀ i < cbHeader, after.file.byte.drop info.u64DataOffset i =
      newHeader info ddh disk.image.cBlockAllocationTableEntries i := header
  have old : ∀ i < cbHeader, ddh i = disk.file.byte.drop info.u64DataOffset i := same
  obtain ⟨-, tableNew, -, blockNew⟩ := header_congr agree
  obtain ⟨-, tableOld, -, blockOld⟩ := header_congr old
  refine
    { cookie := by rw [flushed.copy, newFooter_cookie]; exact described.cookie
      type := ?_
      dataOffset := by rw [flushed.copy, newFooter_dataOffset]; exact described.dataOffset
      tableOffset := ?_
      blockSize := ?_
      entries := by rw [flushed.image]; exact described.entries
      cbSize := by rw [flushed.image]; exact described.cbSize
      sectors := by rw [flushed.image]; exact described.sectors
      bitmap := by rw [flushed.image]; exact described.bitmap
      bitmapSectors := by rw [flushed.image]; exact described.bitmapSectors }
  · rw [flushed.copy, fDynamicType, newFooter_type]
    exact described.type
  · rw [tableNew, newHeader_tableOffset, tableOld, flushed.image]
    exact described.tableOffset
  · rw [blockNew, newHeader_blockSize, blockOld, flushed.image]
    exact described.blockSize

theorem Flushed.opens (flushable : Flushable info disk) (described : Described info disk)
    (flushed : Flushed info disk after) :
    ∃ opened, vhdOpenImage (fileOf after.file) = .ok opened ∧ SameImage disk.image opened := by
  have again := described.flushed flushed
  obtain ⟨ddh, same, headerBytes⟩ := flushed.header
  have agree : ∀ i < cbHeader, after.file.byte.drop info.u64DataOffset i =
      newHeader info ddh disk.image.cBlockAllocationTableEntries i := headerBytes
  have large : cbFooter ≤ after.file.size := flushed.size ▸ Nat.le_add_left _ _
  have last : ∀ i < cbFooter, lastSector after.file i =
      newFooter disk.vhdFooterCopy disk.image.cbSize info.geometry i := by
    intro i below
    rw [lastSector, flushed.size, Nat.add_sub_cancel, Buf.drop_apply]
    exact flushed.last i below
  obtain ⟨cookie, -, offset, type⟩ := footer_congr last
  rw [newFooter_cookie, described.cookie] at cookie
  rw [newFooter_dataOffset, described.dataOffset] at offset
  rw [newFooter_type] at type
  have size : beNat 8 ((lastSector after.file).drop 48) = disk.image.cbSize :=
    (beNat_drop_congr last (by decide)).trans (newFooter_size _ _ _ described.cbSize)
  have offsetSmall : info.u64DataOffset < 2 ^ 64 := by
    rw [← described.dataOffset]
    exact beNat_lt 8 _
  have tableSmall : disk.image.uBlockAllocationTableOffset < 2 ^ 64 := by
    rw [← described.tableOffset]
    exact beNat_lt 8 _
  have blockSmall : disk.image.cbDataBlock < 2 ^ 32 := by
    rw [← described.blockSize]
    exact beNat_lt 4 _
  have tableOffsetEq := again.tableOffset
  have blockSizeEq := again.blockSize
  rw [flushed.image] at tableOffsetEq blockSizeEq
  have entriesEq : maxTableEntries (after.file.byte.drop info.u64DataOffset) =
      disk.image.cBlockAllocationTableEntries :=
    (header_congr agree).2.2.1.trans (newHeader_entries info ddh _ described.entries)
  have headerCookieEq := (flushed.again flushable).cookie
  have footer : (fileOf after.file).footer = .ok
      { fCookie := true
        diskType := UInt32.ofNat (diskType disk.vhdFooterCopy)
        curSize := UInt64.ofNat disk.image.cbSize
        dataOffset := UInt64.ofNat info.u64DataOffset } := by
    simp only [fileOf]
    rw [if_pos large, cookie, type, size, offset]
  have header : (fileOf after.file).dynamicHeader (UInt64.ofNat info.u64DataOffset) =
      { fCookie := true
        tableOffset := UInt64.ofNat disk.image.uBlockAllocationTableOffset
        maxTableEntries := UInt32.ofNat disk.image.cBlockAllocationTableEntries
        blockSize := UInt32.ofNat disk.image.cbDataBlock } := by
    simp only [fileOf]
    rw [UInt64.toNat_ofNat_of_lt' offsetSmall, headerCookieEq, tableOffsetEq, entriesEq,
      blockSizeEq]
  have table : ∀ block < disk.image.cBlockAllocationTableEntries,
      (fileOf after.file).table block = disk.image.blockAllocationTable block := by
    intro block known
    have entry : batEntry (after.file.byte.drop disk.image.uBlockAllocationTableOffset) block =
        (disk.image.blockAllocationTable block).toNat := by
      refine beNat_leByte (fun i below => ?_) (disk.image.blockAllocationTable block).toNat_lt
      rw [Buf.drop_apply, Buf.drop_apply, ← Nat.add_assoc]
      exact flushed.table block known i below
    simp only [fileOf]
    rw [offset, tableOffsetEq, entry, UInt32.ofNat_toNat]
  have typeSmall : diskType disk.vhdFooterCopy < 2 ^ 32 := beNat_lt 4 _
  have typeEq : diskType disk.vhdFooterCopy = VHD_FOOTER_DISK_TYPE_DYNAMIC ∨
      diskType disk.vhdFooterCopy = VHD_FOOTER_DISK_TYPE_DIFFERENCING := by
    have either := described.type
    rw [fDynamicType, Bool.or_eq_true_iff, beq_iff_eq, beq_iff_eq] at either
    exact either
  have notFixed : diskType disk.vhdFooterCopy ≠ VHD_FOOTER_DISK_TYPE_FIXED := by
    rcases typeEq with type | type <;> rw [type] <;> decide
  have opened : vhdOpenImage (fileOf after.file) = vhdLoadDynamicDisk (fileOf after.file)
      (fixedImage (fileOf after.file)
        { fCookie := true
          diskType := UInt32.ofNat (diskType disk.vhdFooterCopy)
          curSize := UInt64.ofNat disk.image.cbSize
          dataOffset := UInt64.ofNat info.u64DataOffset })
      (UInt64.ofNat info.u64DataOffset) := by
    rw [vhdOpenImage, footer]
    simp only [fileOf, Bool.not_true, Bool.false_eq_true, if_false]
    rw [UInt32.toNat_ofNat_of_lt' typeSmall, if_neg notFixed, if_pos typeEq]
  rw [opened, vhdLoadDynamicDisk, header]
  refine ⟨_, rfl, ?_⟩
  have blockEq := UInt32.toNat_ofNat_of_lt' blockSmall
  refine
    { dynamic := rfl
      cbSize := UInt64.toNat_ofNat_of_lt' described.cbSize
      entries := UInt32.toNat_ofNat_of_lt' described.entries
      data := blockEq
      sectors := ?_
      bitmap := ?_
      bitmapSectors := ?_
      eof := ?_
      offset := UInt64.toNat_ofNat_of_lt' tableSmall
      table := table }
  · simp only [blockEq]
    exact described.sectors.symm
  · simp only [blockEq]
    rw [described.bitmap, described.sectors]
  · simp only [blockEq]
    rw [described.bitmapSectors, described.bitmap, described.sectors]
  · have length : (fileOf after.file).cbFile = after.file.size := rfl
    have sector : VHD_SECTOR_SIZE = cbFooter := rfl
    simp only [fixedImage]
    rw [length, flushed.size, sector, u64Sub_of_le (Nat.le_add_left _ _)]
    exact Nat.add_sub_cancel _ _

end Opening

/-! ### What growing should do -/

/-- The bytes of a block with its bitmap in the file. -/
def VhdImage.cbOnDisk (image : VhdImage) : Nat := image.spacing * VHD_SECTOR_SIZE

/-- The disk before and after. -/
structure Resized (info : HeaderInfo) (cbSize : Nat) (before after : Disk) : Prop where
  size : after.image.cbSize = cbSize
  enough : cbSize ≤ after.image.cBlockAllocationTableEntries * after.image.cbDataBlock
  tableBlocks : ∀ block < after.image.cBlockAllocationTableEntries,
    after.image.allocated block = true →
    Apart after.image.uBlockAllocationTableOffset (4 * after.image.cBlockAllocationTableEntries)
      (after.image.blockOffset block) after.image.cbOnDisk
  tableLocators : ∀ locator ∈ info.locators,
    Apart after.image.uBlockAllocationTableOffset (4 * after.image.cBlockAllocationTableEntries)
      locator.offset locator.cbSpace
  allocated : ∀ block < before.image.cBlockAllocationTableEntries,
    after.image.allocated block = before.image.allocated block
  /-- The bitmap and the data of each block. -/
  bytes : ∀ block < before.image.cBlockAllocationTableEntries,
    before.image.allocated block = true → ∀ x < before.image.cbOnDisk,
    after.file.byte (after.image.blockOffset block + x) =
      before.file.byte (before.image.blockOffset block + x)
  content : ∀ block < before.image.cBlockAllocationTableEntries,
    ∀ sector < before.image.cSectorsPerDataBlock,
    readSector after block sector = readSector before block sector
  new : ∀ block, before.image.cBlockAllocationTableEntries ≤ block →
    block < after.image.cBlockAllocationTableEntries → after.image.allocated block = false
  /-- Closing flushes once more. -/
  reopened : ∃ opened, vhdOpenImage (fileOf (flushWithHeader info after).file) = .ok opened ∧
    SameImage after.image opened
  closed : ∀ block < after.image.cBlockAllocationTableEntries,
    ∀ sector < after.image.cSectorsPerDataBlock,
    readSector (flushWithHeader info after) block sector = readSector after block sector

def ResizeRight (info : HeaderInfo) (cbSize : Nat) (disk : Disk) : Prop :=
  (vhdResize info cbSize disk).1 = none → Resized info cbSize disk (vhdResize info cbSize disk).2

/-- The images that are grown as they should be. -/
structure Resizable (info : HeaderInfo) (cbSize : Nat) (disk : Disk) : Prop where
  placed : Placed disk
  spaced : cbBlock disk.image = disk.image.cbOnDisk
  bits : disk.image.cSectorsPerDataBlock ≤ 8 * disk.image.cbDataBlockBitmap
  positive : 0 < disk.image.cbDataBlock
  dynamic : disk.image.fDynamic = true
  grows : disk.image.cbSize < cbSize
  size : cbSize < 2 ^ 64
  old : disk.image.cBlockAllocationTableEntries ≤ entriesFor disk.image cbSize
  below : disk.image.uBlockAllocationTableOffset + 4 * entriesFor disk.image cbSize + 1022 < 2 ^ 32
  first : ∀ block < disk.image.cBlockAllocationTableEntries, disk.image.allocated block = true →
    offStartDataOld disk.image ≤ disk.image.blockOffset block
  reach : ∀ block < disk.image.cBlockAllocationTableEntries, disk.image.allocated block = true →
    offStartDataNew disk.image cbSize ≤ disk.image.blockOffset block ∨
      ∃ k < cBlocksAllocated disk.image,
        disk.image.blockOffset block = offStartDataOld disk.image + k * cbBlock disk.image
  room : offStartDataNew disk.image cbSize ≤ disk.image.uCurrentEndOfFile
  limit : disk.image.uCurrentEndOfFile + cBlocksAllocated disk.image * cbBlock disk.image <
    (2 ^ 32 - 1) * VHD_SECTOR_SIZE
  described : Described info disk
  tableBehind : cbFooter ≤ disk.image.uBlockAllocationTableOffset
  headerBehind : cbFooter ≤ info.u64DataOffset
  headerFront : info.u64DataOffset + cbHeader ≤ disk.image.uCurrentEndOfFile
  headerTable : Apart info.u64DataOffset cbHeader disk.image.uBlockAllocationTableOffset
    (4 * entriesFor disk.image cbSize)
  headerBlocks : ∀ block < disk.image.cBlockAllocationTableEntries,
    disk.image.allocated block = true →
    Apart info.u64DataOffset cbHeader (disk.image.blockOffset block) (cbBlock disk.image)
  updates : info.fParentUpdates = true
  cookie : headerCookie (disk.file.byte.drop info.u64DataOffset) = true
  checksum : headerChecksum (disk.file.byte.drop info.u64DataOffset) = true
  locatorInside : ∀ locator ∈ info.locators, cbFooter ≤ locator.offset ∧
    locator.offset + locator.cbSpace ≤ disk.image.uCurrentEndOfFile
  locatorHeader : ∀ locator ∈ info.locators,
    Apart locator.offset locator.cbSpace info.u64DataOffset cbHeader
  locatorTable : ∀ locator ∈ info.locators, Apart locator.offset locator.cbSpace
    disk.image.uBlockAllocationTableOffset (4 * entriesFor disk.image cbSize)
  locatorBlocks : ∀ locator ∈ info.locators,
    ∀ block < disk.image.cBlockAllocationTableEntries, disk.image.allocated block = true →
    Apart locator.offset locator.cbSpace (disk.image.blockOffset block) (cbBlock disk.image)

section Resize

variable {info : HeaderInfo} {cbSize : Nat} {disk moved : Disk}

section

variable (able : Resizable info cbSize disk)

include able

/-- A sector's bit and its data lie in the block. -/
theorem Resizable.inBlock {sector : Nat} (inside : sector < disk.image.cSectorsPerDataBlock) :
    sector / 8 < cbBlock disk.image ∧
      (disk.image.cDataBlockBitmapSectors + sector + 1) * VHD_SECTOR_SIZE ≤ cbBlock disk.image := by
  constructor
  · have bits := able.bits
    have bitmap : disk.image.cbDataBlockBitmap ≤ cbBlock disk.image := Nat.le_add_left _ _
    omega
  · rw [able.spaced, VhdImage.cbOnDisk, VhdImage.spacing]
    refine Nat.mul_le_mul_right _ ?_
    omega

theorem Resizable.cBlocksNew : cBlocksNew disk.image cbSize = entriesFor disk.image cbSize := by
  have below := able.below
  exact cBlocksNew_eq able.positive (by omega)

/-- The new table ends in front of the new start of the data. -/
theorem Resizable.tableEnd :
    disk.image.uBlockAllocationTableOffset + 4 * entriesFor disk.image cbSize ≤
        offStartDataNew disk.image cbSize ∧ offStartDataNew disk.image cbSize < 2 ^ 32 := by
  have below := able.below
  have inner := @le_align32 (entriesFor disk.image cbSize * 4) (by omega)
  have outer := @le_align32 (disk.image.uBlockAllocationTableOffset +
    align32 (entriesFor disk.image cbSize * 4)) (by omega)
  rw [offStartDataNew, able.cBlocksNew]
  omega

end

/-- A step in front of the end of the new table is one of the loop's. -/
theorem step_lt_ceil {k cb length : Nat} (positive : 0 < cb) (front : k * cb < length) :
    k < length / cb + if length % cb = 0 then 0 else 1 := by
  have split := Nat.div_add_mod length cb
  split
  · rename_i whole
    rw [whole, Nat.add_zero, Nat.mul_comm] at split
    rw [← split] at front
    exact Nat.lt_of_mul_lt_mul_right front
  · refine Nat.lt_succ_of_le ?_
    by_contra beyond
    have rest := Nat.mod_lt length positive
    have more := Nat.mul_le_mul_right cb (Nat.succ_le_of_lt (Nat.not_le.mp beyond))
    rw [Nat.succ_mul, Nat.mul_comm (length / cb)] at more
    omega

/-- The relocation succeeds and leaves no block in front of the new start of the data. -/
theorem Resizable.relocated (able : Resizable info cbSize disk) : ∃ steps moved,
      (if offStartDataOld disk.image ≠ offStartDataNew disk.image cbSize ∧
          0 < cBlocksAllocated disk.image then
        relocate (cBlocksReloc disk.image cbSize) (offStartDataOld disk.image) disk
      else (true, disk)) = (true, moved) ∧
      Relocated disk (offStartDataOld disk.image) steps moved ∧
      ∀ block < disk.image.cBlockAllocationTableEntries, disk.image.allocated block = true →
        offStartDataNew disk.image cbSize ≤ moved.image.blockOffset block := by
  have start := Relocated.refl able.placed (offStartDataOld disk.image)
  have room := able.room
  have limit := able.limit
  -- where a block that has stayed is, unless the loop has looked there
  have clear : ∀ steps moved, Relocated disk (offStartDataOld disk.image) steps moved →
      (∀ k < cBlocksAllocated disk.image, offStartDataOld disk.image + k * cbBlock disk.image <
        offStartDataNew disk.image cbSize → k < steps) →
      ∀ block < disk.image.cBlockAllocationTableEntries, disk.image.allocated block = true →
        offStartDataNew disk.image cbSize ≤ moved.image.blockOffset block := by
    intro steps moved relocated covers block known live
    rcases relocated.stayed block known live with same | behind
    · have place : moved.image.blockOffset block = disk.image.blockOffset block := by
        rw [VhdImage.blockOffset, same]
        rfl
      rcases able.reach block known live with far | ⟨k, fewer, here⟩
      · rw [place]
        exact far
      · by_contra front
        rw [place, here] at front
        have behind := relocated.visited block known live k
          (covers k fewer (Nat.not_le.mp front)) here
        rw [place, here] at behind
        omega
    · exact le_trans room behind
  by_cases needed : offStartDataOld disk.image ≠ offStartDataNew disk.image cbSize ∧
      0 < cBlocksAllocated disk.image
  · have aligned := (offStartDataOld_cases disk.image).resolve_left (Nat.ne_of_gt needed.2)
    have fewer : cBlocksReloc disk.image cbSize ≤ cBlocksAllocated disk.image :=
      Nat.min_le_right _ _
    have less := Nat.mul_le_mul_right (cbBlock disk.image) fewer
    have front : offStartDataOld disk.image ≤ disk.image.uCurrentEndOfFile := by
      obtain ⟨block, member⟩ := List.exists_mem_of_length_pos needed.2
      obtain ⟨known, live⟩ := List.mem_filter.mp member
      have inside := able.placed.inside block (mem_blocks.mp known) live
      have first := able.first block (mem_blocks.mp known) live
      omega
    have total : disk.image.uCurrentEndOfFile +
        (0 + cBlocksReloc disk.image cbSize) * cbBlock disk.image <
          (2 ^ 32 - 1) * VHD_SECTOR_SIZE := by
      rw [Nat.zero_add]
      omega
    obtain ⟨moved, ran, relocated⟩ := start.run able.placed aligned front total
    rw [Nat.zero_mul, Nat.add_zero] at ran
    rw [Nat.zero_add] at relocated
    refine ⟨_, moved, (if_pos needed).trans ran, relocated, clear _ _ relocated ?_⟩
    intro k inTable inFront
    have tableEnd := able.tableEnd
    have overlapping : u64Sub (offStartDataNew disk.image cbSize) (offStartDataOld disk.image) =
        offStartDataNew disk.image cbSize - offStartDataOld disk.image :=
      u64Sub_of_le (by omega)
    have ceil := @step_lt_ceil k (cbBlock disk.image)
      (offStartDataNew disk.image cbSize - offStartDataOld disk.image) able.placed.positive
      (by omega)
    have whole : 2 ≤ cbBlock disk.image :=
      le_trans (by decide) (Nat.le_of_dvd able.placed.positive able.placed.sectors)
    have bounded : (offStartDataNew disk.image cbSize - offStartDataOld disk.image) /
        cbBlock disk.image ≤
        (offStartDataNew disk.image cbSize - offStartDataOld disk.image) / 2 :=
      Nat.div_le_div_left whole (by decide)
    have small : (offStartDataNew disk.image cbSize - offStartDataOld disk.image) /
        cbBlock disk.image +
          (if (offStartDataNew disk.image cbSize - offStartDataOld disk.image) %
            cbBlock disk.image = 0 then 0 else 1) < 2 ^ 32 := by
      split <;> omega
    rw [cBlocksReloc, overlapping, u32_of_lt small]
    exact lt_min ceil inTable
  · refine ⟨0, disk, if_neg needed, start, clear _ _ start ?_⟩
    intro k inTable inFront
    have same : offStartDataOld disk.image = offStartDataNew disk.image cbSize := by
      by_contra differ
      exact needed ⟨differ, Nat.lt_of_le_of_lt (Nat.zero_le _) inTable⟩
    omega

/-- The image before it is flushed. -/
def grownDisk (cbSize : Nat) (disk moved : Disk) : Disk :=
  extendTable cbSize (entriesFor disk.image cbSize) moved

section Grown

variable {steps : Nat} (able : Resizable info cbSize disk)
  (relocated : Relocated disk (offStartDataOld disk.image) steps moved)
  (far : ∀ block < disk.image.cBlockAllocationTableEntries, disk.image.allocated block = true →
    offStartDataNew disk.image cbSize ≤ moved.image.blockOffset block)

include relocated in
theorem moved_shape :
    moved.image.uBlockAllocationTableOffset = disk.image.uBlockAllocationTableOffset ∧
      moved.image.cBlockAllocationTableEntries = disk.image.cBlockAllocationTableEntries ∧
      moved.image.cbDataBlock = disk.image.cbDataBlock ∧
      moved.image.cSectorsPerDataBlock = disk.image.cSectorsPerDataBlock ∧
      moved.image.cbDataBlockBitmap = disk.image.cbDataBlockBitmap ∧
      moved.image.cDataBlockBitmapSectors = disk.image.cDataBlockBitmapSectors := by
  obtain ⟨table, eof, shape⟩ := relocated.shape
  rw [shape]
  exact ⟨rfl, rfl, rfl, rfl, rfl, rfl⟩

include relocated in
/-- The old entries stay. -/
theorem grown_entry {block : Nat} (known : block < disk.image.cBlockAllocationTableEntries) :
    (grownDisk cbSize disk moved).image.blockAllocationTable block =
      moved.image.blockAllocationTable block := by
  refine if_neg fun beyond => ?_
  rw [(moved_shape relocated).2.1] at beyond
  omega

include relocated in
/-- The new entries are free. -/
theorem grown_new {block : Nat} (behind : disk.image.cBlockAllocationTableEntries ≤ block)
    (known : block < entriesFor disk.image cbSize) :
    (grownDisk cbSize disk moved).image.allocated block = false := by
  have free : (grownDisk cbSize disk moved).image.blockAllocationTable block = freeEntry :=
    if_pos ⟨(moved_shape relocated).2.1 ▸ behind, known⟩
  rw [VhdImage.allocated, free]
  decide

include able relocated in
/-- The header is where it was, as it was. -/
theorem grown_header {i : Nat} (below : i < cbHeader) :
    (grownDisk cbSize disk moved).file.byte (info.u64DataOffset + i) =
      disk.file.byte (info.u64DataOffset + i) := by
  have front := able.headerFront
  have same : (grownDisk cbSize disk moved).file.byte (info.u64DataOffset + i) =
      moved.file.byte (info.u64DataOffset + i) := by
    simp only [grownDisk, extendTable]
    refine ByteFile.byte_write_of_not_mem ?_
    rw [(moved_shape relocated).1]
    rcases able.headerTable with first | second
    · exact .inl (by omega)
    · exact .inr (by omega)
  rw [same]
  refine relocated.others _ (by omega) fun block known live => ?_
  rcases able.headerBlocks block known live with first | second
  · exact .inl (by omega)
  · exact .inr (by omega)

include able relocated in
theorem grown_flushable : Flushable info (grownDisk cbSize disk moved) := by
  have tableEnd := able.tableEnd
  have room := able.room
  have grown := relocated.grown
  have low := relocated.sizeLow
  have offset : (grownDisk cbSize disk moved).image.uBlockAllocationTableOffset =
      disk.image.uBlockAllocationTableOffset := (moved_shape relocated).1
  have entries : (grownDisk cbSize disk moved).image.cBlockAllocationTableEntries =
      entriesFor disk.image cbSize := rfl
  have eof : (grownDisk cbSize disk moved).image.uCurrentEndOfFile =
      moved.image.uCurrentEndOfFile := rfl
  have size : (grownDisk cbSize disk moved).file.size = moved.file.size := by
    refine size_write_inside ?_
    rw [(moved_shape relocated).1]
    omega
  have agree : ∀ i < cbHeader,
      (grownDisk cbSize disk moved).file.byte.drop info.u64DataOffset i =
        disk.file.byte.drop info.u64DataOffset i := fun i below => grown_header able relocated below
  refine
    { sizeLow := by rw [eof, size]; exact low
      sizeHigh := by rw [eof, size]; exact relocated.sizeHigh
      tableBehind := by rw [offset]; exact able.tableBehind
      tableFront := by rw [offset, entries, eof]; omega
      headerBehind := able.headerBehind
      headerFront := by rw [eof]; exact le_trans able.headerFront grown
      headerApart := by rw [offset, entries]; exact able.headerTable
      locators := fun locator member => ?_
      updates := able.updates
      cookie := by rw [headerCookie_congr agree]; exact able.cookie
      checksum := by rw [(header_congr agree).1]; exact able.checksum }
  obtain ⟨behind, inside⟩ := able.locatorInside locator member
  rw [offset, entries, eof]
  exact ⟨behind, le_trans inside grown, able.locatorHeader locator member,
    able.locatorTable locator member⟩

include able relocated in
theorem grown_described : Described info (grownDisk cbSize disk moved) := by
  have described := able.described
  have below := able.below
  obtain ⟨offset, -, data, sectors, bitmap, bitmapSectors⟩ := moved_shape relocated
  have agree : ∀ i < cbHeader,
      (grownDisk cbSize disk moved).file.byte.drop info.u64DataOffset i =
        disk.file.byte.drop info.u64DataOffset i := fun i below => grown_header able relocated below
  obtain ⟨-, tableOffset, -, blockSize⟩ := header_congr agree
  have copy : (grownDisk cbSize disk moved).vhdFooterCopy = disk.vhdFooterCopy := relocated.copy
  have entries : (grownDisk cbSize disk moved).image.cBlockAllocationTableEntries =
      entriesFor disk.image cbSize := rfl
  exact
    { cookie := copy ▸ described.cookie
      type := copy ▸ described.type
      dataOffset := copy ▸ described.dataOffset
      tableOffset := tableOffset.trans (described.tableOffset.trans offset.symm)
      blockSize := blockSize.trans (described.blockSize.trans data.symm)
      entries := by rw [entries]; omega
      cbSize := able.size
      sectors := sectors.trans (described.sectors.trans (data ▸ rfl))
      bitmap := bitmap.trans (described.bitmap.trans (sectors ▸ rfl))
      bitmapSectors := bitmapSectors.trans (described.bitmapSectors.trans (bitmap ▸ rfl)) }

include able relocated far in
/-- A block's bytes lie outside all that is flushed. -/
theorem block_outside {block x : Nat} (known : block < disk.image.cBlockAllocationTableEntries)
    (live : disk.image.allocated block = true) (below : x < cbBlock disk.image)
    {before after : Disk} (image : before.image = (grownDisk cbSize disk moved).image)
    (flushed : Flushed info before after) : after.file.byte (moved.image.blockOffset block + x) =
      before.file.byte (moved.image.blockOffset block + x) := by
  have tableEnd := able.tableEnd
  have start := far block known live
  have liveNow : moved.image.allocated block = true := by
    rw [relocated.allocated block known, live]
  have inside := relocated.inside block known liveNow
  have behind := able.tableBehind
  -- what lies in front of the old end lies outside the block
  have outside : ∀ off cb, off + cb ≤ disk.image.uCurrentEndOfFile →
      Apart off cb (disk.image.blockOffset block) (cbBlock disk.image) →
      moved.image.blockOffset block + x < off ∨ off + cb ≤ moved.image.blockOffset block + x := by
    intro off cb front apart
    rcases relocated.stayed block known live with same | late
    · have place : moved.image.blockOffset block = disk.image.blockOffset block := by
        rw [VhdImage.blockOffset, same]
        rfl
      rw [place]
      rcases apart with first | second
      · exact .inr (by omega)
      · exact .inl (by omega)
    · exact .inr (by omega)
  have offset : (grownDisk cbSize disk moved).image.uBlockAllocationTableOffset =
      disk.image.uBlockAllocationTableOffset := (moved_shape relocated).1
  have entries : (grownDisk cbSize disk moved).image.cBlockAllocationTableEntries =
      entriesFor disk.image cbSize := rfl
  have eof : (grownDisk cbSize disk moved).image.uCurrentEndOfFile =
      moved.image.uCurrentEndOfFile := rfl
  refine flushed.others _ (by omega) ?_ ?_ ?_ fun locator member => ?_
  · rw [image, eof]
    omega
  · rw [image, offset, entries]
    exact .inr (by omega)
  · exact outside _ _ able.headerFront (able.headerBlocks block known live)
  · exact outside _ _ (able.locatorInside locator member).2
      (able.locatorBlocks locator member block known live)

end Grown

end Resize

def smallInfo (locators : List Locator) : HeaderInfo :=
  ⟨512, true, fun _ => 0, locators, fun _ => 0⟩

/-- A dynamic disk header with its cookie. -/
def cookieHeader (cEntries cbData : Nat) : Buf := sealed 36 cbHeader fun i =>
  if i < 8 then [0x63, 0x78, 0x73, 0x70, 0x61, 0x72, 0x73, 0x65].getD i 0
  else smallHeader cEntries cbData i

/-- An image of blocks of `cSectors` sectors and one for the bitmap, at these first sectors. -/
def tableDisk (cSectors : Nat) (entries : List Nat) (uCurrentEndOfFile : Nat) : Disk :=
  let copy := newFooter (smallFooter 3) (entries.length * (cSectors * 512)) fun _ => 0
  { image :=
      { cbSize := entries.length * (cSectors * 512)
        fDynamic := true
        blockAllocationTable := fun block => UInt32.ofNat (entries.getD block cleared)
        cBlockAllocationTableEntries := entries.length
        cbDataBlock := cSectors * 512
        cSectorsPerDataBlock := cSectors
        cbDataBlockBitmap := cSectors / 8
        cDataBlockBitmapSectors := 1
        uCurrentEndOfFile
        uBlockAllocationTableOffset := 1536 }
    vhdFooterCopy := copy
    file :=
      { size := uCurrentEndOfFile + cbFooter
        byte := fun i =>
          if uCurrentEndOfFile + cbFooter ≤ i then 0
          else if uCurrentEndOfFile ≤ i then copy (i - uCurrentEndOfFile)
          else if i < 512 then copy i
          else if i < 1536 then cookieHeader entries.length (cSectors * 512) (i - 512)
          else if i < 1536 + 4 * entries.length then batBytes entries (i - 1536)
          else 0
        beyond := fun _ outside => if_pos outside } }

/-- One block of 2 MiB, directly behind the table. -/
def crowdedDisk : Disk := tableDisk 4096 [4] 2099712

theorem crowdedDisk_header {i : Nat} (below : i < cbHeader) :
    crowdedDisk.file.byte.drop 512 i = cookieHeader 1 2097152 i := by
  have below : i < 1024 := below
  simp only [crowdedDisk, tableDisk, Buf.drop_apply, List.length_singleton]
  rw [if_neg (by simp only [cbFooter]; omega), if_neg (by omega), if_neg (by omega),
    if_pos (by omega), Nat.add_sub_cancel_left]

theorem crowdedDisk_described : Described (smallInfo []) crowdedDisk := by
  obtain ⟨-, table, -, block⟩ := header_congr fun i below => crowdedDisk_header below
  exact
    { cookie := by decide
      type := by decide
      dataOffset := by decide
      tableOffset := table.trans (by decide)
      blockSize := block.trans (by decide)
      entries := by decide
      cbSize := by decide
      sectors := by decide
      bitmap := by decide
      bitmapSectors := by decide }

theorem crowdedDisk_placed : Placed crowdedDisk where
  sectors := by decide
  positive := by decide
  eofSectors := by decide
  size := rfl
  inside := by decide
  apart := by decide

theorem crowdedDisk_resizable : Resizable (smallInfo []) 419430400 crowdedDisk where
  placed := crowdedDisk_placed
  spaced := by decide
  bits := by decide
  positive := by decide
  dynamic := rfl
  grows := by decide
  size := by decide
  old := by decide
  below := by decide
  first := by decide
  reach := by
    intro block known live
    have known : block < 1 := known
    have zero : block = 0 := by omega
    subst zero
    exact .inr ⟨0, by decide, by decide⟩
  room := by decide
  limit := by decide
  described := crowdedDisk_described
  tableBehind := by decide
  headerBehind := by decide
  headerFront := by decide
  headerTable := by decide
  headerBlocks := by decide
  updates := rfl
  cookie := (headerCookie_congr fun _ below => crowdedDisk_header below).trans (by decide)
  checksum := (header_congr fun _ below => crowdedDisk_header below).1.trans (fChecksum_sealed _)
  locatorInside := fun _ member => (List.not_mem_nil member).elim
  locatorHeader := fun _ member => (List.not_mem_nil member).elim
  locatorTable := fun _ member => (List.not_mem_nil member).elim
  locatorBlocks := fun _ member => (List.not_mem_nil member).elim

theorem flushWithHeader_image (info : HeaderInfo) (disk : Disk) :
    (flushWithHeader info disk).image = disk.image := by
  rw [flushWithHeader]
  split
  · rfl
  · rfl

section Wrong

variable {info : HeaderInfo} {cbSize : Nat} {disk : Disk}

theorem vhdResize_grows (dynamic : disk.image.fDynamic = true)
    (grows : disk.image.cbSize < cbSize) :
    (vhdResize info cbSize disk).1 = (growDisk cbSize disk).1 ∧
      (vhdResize info cbSize disk).2.image = (growDisk cbSize disk).2.image := by
  rw [vhdResize, if_neg (not_or.mpr ⟨Nat.not_lt.mpr (Nat.le_of_lt grows), by rw [dynamic]; decide⟩),
    if_pos grows]
  exact ⟨rfl, flushWithHeader_image _ _⟩

section

variable (right : ResizeRight info cbSize disk) (dynamic : disk.image.fDynamic = true)
  (grows : disk.image.cbSize < cbSize) (success : (growDisk cbSize disk).1 = none)

include right dynamic grows success

theorem ResizeRight.blocks {block : Nat}
    (known : block < (growDisk cbSize disk).2.image.cBlockAllocationTableEntries)
    (live : (growDisk cbSize disk).2.image.allocated block = true) :
    Apart (growDisk cbSize disk).2.image.uBlockAllocationTableOffset
      (4 * (growDisk cbSize disk).2.image.cBlockAllocationTableEntries)
      ((growDisk cbSize disk).2.image.blockOffset block)
      (growDisk cbSize disk).2.image.cbOnDisk := by
  obtain ⟨rc, image⟩ := @vhdResize_grows info cbSize disk dynamic grows
  have apart := (right (rc.trans success)).tableBlocks block
  rw [image] at apart
  exact apart known live

theorem ResizeRight.locators {locator : Locator} (member : locator ∈ info.locators) :
    Apart (growDisk cbSize disk).2.image.uBlockAllocationTableOffset
      (4 * (growDisk cbSize disk).2.image.cBlockAllocationTableEntries)
      locator.offset locator.cbSpace := by
  obtain ⟨rc, image⟩ := @vhdResize_grows info cbSize disk dynamic grows
  have apart := (right (rc.trans success)).tableLocators locator member
  rw [image] at apart
  exact apart

end

end Wrong

end VBox.Storage.Vhd
