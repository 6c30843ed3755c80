import VBox.Storage.Vdi.Reopen

/-!
What `vdiCreate` makes.

The offsets of a new image are computed in 32 bits, so a large disk or data
alignment can make them wrap (`LayoutFits` excludes that). Where they fit, a new
image has a right block table without unused slots, and everything it holds is
on disk.
-/

namespace VBox.Storage.Vdi

open VBox.Lib

/-- The sizes `vdiCreate` accepts. -/
structure AcceptedSize (args : CreateArgs) : Prop where
  low : vdiImageDefaultBlockSize ≤ args.cbSize
  high : args.cbSize < 2 ^ 50 * 4 - 2 ^ 20 * 3

/-- The offsets of a new image leave room for header and table, and the data
area starts low enough for 32-bit sums. -/
structure LayoutFits (args : CreateArgs) : Prop where
  headerEnd : sizeofPreHeader + sizeofHeader1Plus ≤ getImageBlocksOffset (createHeader args)
  tableEnd : getImageBlocksOffset (createHeader args) + getImageBlocks (createHeader args) * 4 ≤
    getImageDataOffset (createHeader args)
  noWrap : getImageDataOffset (createHeader args) + vdiImageDefaultBlockSize ≤ 2 ^ 32

/-! ### The header of a new image -/

section Header

variable (args : CreateArgs)

/-- The number of blocks of a new image. -/
def createBlockCount : Nat :=
  if args.cbSize % vdiImageDefaultBlockSize ≠ 0 then
    u32 (u32 (args.cbSize / vdiImageDefaultBlockSize) + 1)
  else u32 (args.cbSize / vdiImageDefaultBlockSize)

theorem createHeader_blocks : getImageBlocks (createHeader args) = createBlockCount args := by
  have small : createBlockCount args < 2 ^ 32 := by
    unfold createBlockCount
    split <;> exact u32_lt _
  exact UInt32.toNat_ofNat_of_lt' small

theorem createHeader_blockSize :
    getImageBlockSize (createHeader args) = vdiImageDefaultBlockSize := rfl

theorem createHeader_extra : getImageExtraBlockSize (createHeader args) = 0 := rfl

theorem createHeader_headerSize : (headerBytes (createHeader args)).1 = sizeofHeader1Plus := rfl

variable {args}

/-- The block count is the disk size divided by the block size, rounded up. -/
theorem AcceptedSize.blockCount (accepted : AcceptedSize args) : createBlockCount args =
      (args.cbSize + (vdiImageDefaultBlockSize - 1)) / vdiImageDefaultBlockSize := by
  obtain ⟨low, high⟩ := accepted
  unfold createBlockCount vdiImageDefaultBlockSize at *
  split
  · rw [u32_of_lt (n := args.cbSize / 2 ^ 20) (by omega), u32_of_lt (by omega)]
    omega
  · rw [u32_of_lt (by omega)]
    omega

theorem AcceptedSize.diskSize (accepted : AcceptedSize args) :
    getImageDiskSize (createHeader args) = args.cbSize := by
  have high := accepted.high
  have small : args.cbSize < 2 ^ 64 := by omega
  exact UInt64.toNat_ofNat_of_lt' small

/-- The count of allocated blocks: all of a fixed image, none of a dynamic one. -/
theorem createHeader_allocated (args : CreateArgs) : getImageBlocksAllocated (createHeader args) =
      if hasFlag args.uImageFlags vdImageFlagsFixed then getImageBlocks (createHeader args)
      else 0 := by
  change (if hasFlag args.uImageFlags vdImageFlagsFixed then _ else 0 : UInt32).toNat = _
  split <;> rfl

theorem AcceptedSize.validHeader (accepted : AcceptedSize args) :
    ValidHeader (createHeader args) := by
  have low := accepted.low
  have count := accepted.blockCount
  rw [← createHeader_blocks] at count
  constructor
  · rw [accepted.diskSize]
    unfold vdiImageDefaultBlockSize at low
    omega
  · unfold vdiImageDefaultBlockSize at low count
    omega
  · rw [createHeader_blockSize]
    decide
  · rw [createHeader_allocated]
    split
    · exact le_refl _
    · exact Nat.zero_le _
  · rw [accepted.diskSize, createHeader_blockSize]
    unfold vdiImageDefaultBlockSize at count ⊢
    omega

/-- The image type and flags of a new image are accepted ones. -/
theorem createHeader_type (args : CreateArgs) :
    vdiImageTypeNormal ≤ getImageType (createHeader args) ∧
      getImageType (createHeader args) ≤ vdiImageTypeDiff := by
  change vdiImageTypeNormal ≤
      (UInt32.ofNat (vdiTranslateImageFlags2VDI args.uImageFlags)).toNat ∧
    (UInt32.ofNat (vdiTranslateImageFlags2VDI args.uImageFlags)).toNat ≤ vdiImageTypeDiff
  unfold vdiTranslateImageFlags2VDI
  split
  · decide
  · split <;> decide

theorem createHeader_flags (args : CreateArgs) :
    hasFlagOutside (getImageFlags (createHeader args)) vdVdiImageFlagsMask = false := by
  change hasFlagOutside (u32 ((if hasFlag args.uImageFlags vdVdiImageFlagsZeroExpand then 1
    else 0 : UInt32).toNat <<< 8)) vdVdiImageFlagsMask = false
  split <;> decide

/-- With identifiers drawn for it, the header of a new image passes validation. -/
theorem AcceptedSize.validated (accepted : AcceptedSize args) (fits : LayoutFits args)
    (created : rtUuidIsNull args.uuid = false) (modified : rtUuidIsNull args.uuidModify = false) :
    vdiValidateHeader (createHeader args) = .vinfSuccess := by
  have valid := accepted.validHeader
  obtain ⟨typeLow, typeHigh⟩ := createHeader_type args
  have flags := createHeader_flags args
  rw [vdiValidateHeader_eq_success]
  constructor
  · have headerEnd := fits.headerEnd
    have tableEnd := fits.tableEnd
    have prefixed : sizeofHeader1 ≤ sizeofHeader1Plus := by decide
    have offBlocks := (Nat.add_le_add_left prefixed sizeofPreHeader).trans headerEnd
    change (decide (sizeofHeader1 ≤ (UInt32.ofNat sizeofHeader1Plus).toNat) && decide (_ ≤ _) &&
      decide (_ ≤ _)) = true
    simp only [Bool.and_eq_true, decide_eq_true_eq]
    exact ⟨⟨by decide, offBlocks⟩, tableEnd⟩
  · unfold commonChecksFail
    simp only [Bool.or_eq_false_iff, decide_eq_false_iff_not]
    refine ⟨⟨⟨⟨⟨⟨⟨⟨?_, flags⟩, rfl⟩, ?_⟩, ?_⟩, ?_⟩, ?_⟩, created⟩, modified⟩
    · omega
    · rintro (disk | size | blocks | power)
      · exact valid.diskSize disk
      · rw [createHeader_blockSize] at size
        cases size
      · exact valid.blocks blocks
      · exact valid.blockSize power
    · exact Nat.not_lt_of_le valid.allocated
    · rintro ⟨extra, -⟩
      exact extra (createHeader_extra args)
    · exact Nat.not_lt_of_le valid.covers

end Header

/-! ### The file of a new image -/

/-- Filling a fixed image with zeros only writes to the data area. -/
theorem fillZeros_frame (offStartData cbFill cbChunk rounds uOff : Nat) (file : ByteFile) :
    (∀ k < offStartData,
      (fillZeros offStartData cbFill cbChunk rounds uOff file).byte k = file.byte k) ∧
    file.size ≤ (fillZeros offStartData cbFill cbChunk rounds uOff file).size := by
  induction rounds generalizing uOff file with
  | zero => exact ⟨fun _ _ => rfl, le_refl _⟩
  | succ rounds ih =>
    rw [fillZeros]
    split
    · obtain ⟨kept, grown⟩ := ih (uOff + cbChunk)
        (file.write (offStartData + uOff) cbChunk fun _ => 0)
      constructor
      · intro k below
        rw [kept k below, ByteFile.byte_write_of_not_mem (Or.inl (by omega))]
      · exact (ByteFile.size_le_write _ _ _ _).trans grown
    · exact ⟨fun _ _ => rfl, le_refl _⟩

/-- What `vdiCreateImage` leaves. -/
structure Created (args : CreateArgs) (image : VdiImage) : Prop where
  setUp : SetUp image
  header_eq : image.header = createHeader args
  flags_eq : image.uOpenFlags = {}
  rev_eq : image.paBlocksRev = none
  paBlocks_eq : image.paBlocks = createBlocks args (getImageBlocks (createHeader args))
  preHeader : preHeaderCodec.dec (image.file.byte.drop 0) = vdiInitPreHeader
  stored : StoredHeader image.file (createHeader args)
  table : TableOnDisk image
  tableInside : image.offStartBlocks + getImageBlocks image.header * 4 ≤ image.file.size
  inFile : image.offStartData + getImageBlocksAllocated image.header * image.cbTotalBlockData ≤
    image.file.size
  inImage : image.offStartData + getImageBlocksAllocated image.header * image.cbTotalBlockData ≤
    image.cbImage

/-- The entries of a new table: slot `i` for block `i`, or FREE. -/
theorem createBlocks_entry {args : CreateArgs} {cBlocks i p : Nat}
    (entry : (createBlocks args cBlocks)[i]? = some p) : i < cBlocks ∧
      p = if hasFlag args.uImageFlags vdImageFlagsFixed then i else vdiImageBlockFree := by
  unfold createBlocks at entry
  split at entry
  · rename_i fixed
    obtain ⟨inside, found⟩ := List.getElem?_eq_some_iff.mp entry
    rw [List.getElem_range] at found
    rw [if_pos fixed]
    exact ⟨by simpa using inside, found.symm⟩
  · rename_i dynamic
    obtain ⟨inside, found⟩ := List.getElem?_eq_some_iff.mp entry
    rw [List.getElem_replicate] at found
    rw [if_neg dynamic]
    exact ⟨by simpa using inside, found.symm⟩

theorem length_createBlocks (args : CreateArgs) (cBlocks : Nat) :
    (createBlocks args cBlocks).length = cBlocks := by
  unfold createBlocks
  split <;> simp

/-- The file of a new image once pre-header, header and table are written. -/
def metadataFile (header : VdiHeader) (paBlocks : List Nat) (cbFile : Nat) : ByteFile :=
  (((ByteFile.empty.setSize cbFile).write 0 sizeofPreHeader
      (preHeaderCodec.enc vdiInitPreHeader)).write sizeofPreHeader sizeofHeader1Plus
    (headerBytes header).2).write (getImageBlocksOffset header) (getImageBlocks header * 4)
    (ofWords paBlocks)

section MetadataFile

variable {args : CreateArgs} (paBlocks : List Nat) (cbFile : Nat)

theorem size_le_metadataFile (header : VdiHeader) (paBlocks : List Nat) (cbFile : Nat) :
    cbFile ≤ (metadataFile header paBlocks cbFile).size :=
  (ByteFile.size_le_write (ByteFile.empty.setSize cbFile) _ _ _).trans
    ((ByteFile.size_le_write _ _ _ _).trans (ByteFile.size_le_write _ _ _ _))

theorem metadataFile_preHeader (fits : LayoutFits args) :
    preHeaderCodec.dec ((metadataFile (createHeader args) paBlocks cbFile).byte.drop 0) =
      vdiInitPreHeader := by
  have headerEnd := fits.headerEnd
  refine preHeaderCodec.dec_enc _ _ fun k below => ?_
  have early : 0 + k < sizeofPreHeader := by
    rw [Nat.zero_add]
    exact below
  rw [Buf.drop_apply, metadataFile, ByteFile.byte_write_of_not_mem (Or.inl (by omega)),
    ByteFile.byte_write_of_not_mem (Or.inl early), ByteFile.byte_write_of_mem (Nat.zero_le _)
      (by omega), Nat.sub_zero, Nat.zero_add]

theorem metadataFile_header (fits : LayoutFits args) :
    StoredHeader (metadataFile (createHeader args) paBlocks cbFile) (createHeader args) := by
  have headerEnd := fits.headerEnd
  refine (headerBytes_stored _ (createHeader args)).congr (fun k below => ?_)
    (ByteFile.size_le_write _ _ _ _)
  rw [createHeader_headerSize] at below
  exact ByteFile.byte_write_of_not_mem (Or.inl (by omega))

theorem metadataFile_entry {i p : Nat}
    (entry : (createBlocks args (getImageBlocks (createHeader args)))[i]? = some p)
    (small : p < 2 ^ 32) : storedEntry (metadataFile (createHeader args)
      (createBlocks args (getImageBlocks (createHeader args))) cbFile)
      (getImageBlocksOffset (createHeader args)) i = p := by
  obtain ⟨inside, -⟩ := createBlocks_entry entry
  refine wordAt_of_bytes (fun k below => ?_) small
  have quotient : (4 * i + k) / 4 = i := by omega
  have remainder : (4 * i + k) % 4 = k := by omega
  rw [Buf.drop_apply, metadataFile, ByteFile.byte_write_of_mem (by omega) (by omega),
    Nat.add_sub_cancel_left, ofWords, quotient, remainder, List.getD_eq_getElem?_getD, entry]
  rfl

end MetadataFile

/-- The descriptor `vdiCreateImage` builds, over a file that keeps the metadata. -/
theorem vdiCreateImage_cases {args : CreateArgs} {image : VdiImage} {header : VdiHeader}
    (named : createHeader args = header) (result : vdiCreateImage args = .ok image) :
    ∃ (file : ByteFile) (cbFile : Nat),
      image = { vdiSetupImageDesc { openDesc .empty {} header with
          paBlocks := createBlocks args (getImageBlocks header) } with
        file := file, cbImage := cbFile } ∧
      (∀ k < getImageDataOffset header, file.byte k =
        (metadataFile header (createBlocks args (getImageBlocks header)) cbFile).byte k) ∧
      (metadataFile header (createBlocks args (getImageBlocks header)) cbFile).size ≤ file.size ∧
      cbFile = if hasFlag args.uImageFlags vdImageFlagsFixed then
          getImageDataOffset header + getImageBlocks header *
            u32 (getImageExtraBlockSize header + getImageBlockSize header)
        else getImageDataOffset header := by
  unfold vdiCreateImage at result
  rw [named] at result
  dsimp only at result
  split at result
  · cases result
  cases result
  by_cases fixed : hasFlag args.uImageFlags vdImageFlagsFixed = true
  · simp only [if_pos fixed]
    obtain ⟨kept, grown⟩ := fillZeros_frame (getImageDataOffset header)
      (getImageBlocks header * u32 (getImageExtraBlockSize header + getImageBlockSize header))
      (min (getImageBlocks header * u32 (getImageExtraBlockSize header +
        getImageBlockSize header)) cbFillBuf)
      (getImageBlocks header * u32 (getImageExtraBlockSize header + getImageBlockSize header) /
        cbFillBuf + 1) 0
      (metadataFile header (createBlocks args (getImageBlocks header))
        (getImageDataOffset header + getImageBlocks header *
          u32 (getImageExtraBlockSize header + getImageBlockSize header)))
    exact ⟨_, _, rfl, kept, grown, rfl⟩
  · simp only [if_neg fixed]
    exact ⟨_, _, rfl, fun _ _ => rfl, le_refl _, rfl⟩

/-- The descriptor of a new image agrees with its header, wherever its parts lie. -/
theorem vdiCreateImage_setUp {args : CreateArgs} (accepted : AcceptedSize args) {image : VdiImage}
    (result : vdiCreateImage args = .ok image) : SetUp image := by
  obtain ⟨file, cbFile, rfl, -, -, -⟩ := vdiCreateImage_cases rfl result
  exact
    { valid := accepted.validHeader
      offStartBlocks := rfl
      offStartData := rfl
      uBlockMask := rfl
      uShiftOffset2Index := rfl
      offStartBlockData := rfl
      cbTotalBlockData := rfl
      length_paBlocks := length_createBlocks _ _ }

/-- `vdiCreateImage` writes the metadata it describes and makes room for the
blocks it allocates. -/
theorem vdiCreateImage_created {args : CreateArgs} (accepted : AcceptedSize args)
    (fits : LayoutFits args) {image : VdiImage} (result : vdiCreateImage args = .ok image) :
    Created args image := by
  obtain ⟨headerEnd, tableEnd, -⟩ := id fits
  have setUp := vdiCreateImage_setUp accepted result
  obtain ⟨file, cbFile, rfl, same, grown, cbFile_eq⟩ := vdiCreateImage_cases rfl result
  have allocated := createHeader_allocated args
  have size := size_le_metadataFile (createHeader args)
    (createBlocks args (getImageBlocks (createHeader args))) cbFile
  have room : getImageDataOffset (createHeader args) +
      getImageBlocksAllocated (createHeader args) *
        u32 (getImageExtraBlockSize (createHeader args) + getImageBlockSize (createHeader args)) ≤
      cbFile := by
    rw [allocated, cbFile_eq]
    split
    · exact le_refl _
    · rw [Nat.zero_mul]
      exact le_refl _
  constructor
  · exact setUp
  · rfl
  · rfl
  · rfl
  · rfl
  · refine (preHeaderCodec.dec_congr _ _ fun k below => same _ ?_).trans
      (metadataFile_preHeader _ cbFile fits)
    have width : preHeaderCodec.width = sizeofPreHeader := rfl
    omega
  · refine (metadataFile_header _ cbFile fits).congr (fun k below => same k ?_) grown
    rw [createHeader_headerSize] at below
    omega
  · intro i p entry
    obtain ⟨inside, value⟩ := createBlocks_entry entry
    have small : p < 2 ^ 32 := by
      have := getImageBlocks_lt (createHeader args)
      rw [value]
      split
      · omega
      · decide
    refine Eq.trans ?_ (metadataFile_entry cbFile entry small)
    refine storedEntry_congr fun k low high => same k (lt_of_lt_of_le high ?_)
    change getImageBlocksOffset (createHeader args) + i * 4 + 4 ≤ _
    omega
  · exact tableEnd.trans (((Nat.le_add_right _ _).trans room).trans (size.trans grown))
  · exact room.trans (size.trans grown)
  · exact room

/-! ### A new image is consistent -/

section Consistent

variable {args : CreateArgs} {image : VdiImage}

section

variable (created : Created args image)

include created

theorem Created.layout (fits : LayoutFits args) : Layout image := by
  obtain ⟨headerEnd, tableEnd, noWrap⟩ := fits
  have setUp := created.setUp
  have header := created.header_eq
  constructor
  · rw [setUp.offStartBlocks, header, createHeader_headerSize]
    exact headerEnd
  · rw [setUp.offStartBlocks, setUp.offStartData, header]
    exact tableEnd
  · rw [setUp.offStartData, setUp.offStartBlockData, header, createHeader_extra,
      createHeader_blockSize]
    exact noWrap

/-- In a new image, block `i` has slot `i` or none. -/
theorem Created.slot {i p : Nat} (slot : HasSlot image i p) :
    p = i ∧ i < getImageBlocksAllocated image.header := by
  obtain ⟨entry, inUse⟩ := slot
  rw [created.paBlocks_eq] at entry
  obtain ⟨inside, value⟩ := createBlocks_entry entry
  rw [created.header_eq, createHeader_allocated]
  split at value
  · rename_i fixed
    rw [if_pos fixed]
    exact ⟨value, inside⟩
  · rw [value] at inUse
    exact absurd inUse not_isAllocated_free

theorem Created.total :
    image.cbTotalBlockData = image.offStartBlockData + getImageBlockSize image.header := by
  rw [created.setUp.cbTotalBlockData, created.setUp.offStartBlockData, created.header_eq,
    createHeader_extra, createHeader_blockSize]
  decide

theorem Created.slotEnd_le {i p : Nat} (slot : HasSlot image i p) :
    slotEnd image p ≤ image.offStartData +
      getImageBlocksAllocated image.header * image.cbTotalBlockData := by
  obtain ⟨rfl, below⟩ := created.slot slot
  have total := created.total
  have room := slot_below image.cbTotalBlockData below
  unfold slotEnd
  omega

theorem Created.storeInv (fits : LayoutFits args) : StoreInv image := by
  have setUp := created.setUp
  obtain ⟨rev, length, indexes⟩ : ∃ rev, rev.length = getImageBlocks image.header ∧
      Indexes IsAllocated vdiImageBlockFree image.paBlocks rev
        (getImageBlocksAllocated image.header) := by
    refine Indexes.exists_of_distinct setUp.valid.allocated ?_ ?_
    · intro i p entry inUse
      obtain ⟨rfl, below⟩ := created.slot ⟨entry, inUse⟩
      exact below
    · intro i j p left right inUse
      exact (created.slot ⟨left, inUse⟩).1.symm.trans (created.slot ⟨right, inUse⟩).1
  constructor
  · constructor
    · exact setUp
    · refine ⟨rev, fun stored found => ?_, length.ge, indexes⟩
      rw [created.rev_eq] at found
      cases found
    · intro i p slot
      exact (created.slotEnd_le slot).trans created.inImage
  · exact created.layout fits
  · intro p member
    obtain ⟨i, entry⟩ := List.mem_iff_getElem?.mp member
    have stored := created.table i p entry
    rw [← stored]
    exact wordAt_lt _ _
  · intro i p slot
    exact (created.slotEnd_le slot).trans created.inFile

theorem Created.dense (fits : LayoutFits args) : Dense image := by
  refine ⟨fun p below => ⟨p, ?_, ?_⟩, created.inImage⟩
  · rw [created.header_eq, createHeader_allocated] at below
    split at below
    · rename_i fixed
      rw [created.paBlocks_eq, createBlocks, if_pos fixed, List.getElem?_range below]
    · exact absurd below (Nat.not_lt_zero p)
  · exact (created.layout fits).isAllocated
      ((Nat.le_of_lt below).trans created.setUp.valid.allocated)

theorem Created.onDisk : OnDisk image := by
  constructor
  · rw [created.preHeader]
    decide
  · rw [created.preHeader, created.header_eq]
    exact ⟨by decide, rfl⟩
  · intro readOnly
    rw [created.flags_eq] at readOnly
    cases readOnly
  · exact created.tableInside
  · exact created.table

end

/-- The header of a new image is a 1.1+ one. -/
theorem createHeader_v1 (args : CreateArgs) :
    ∃ h g, createHeader args = .v1 1 h g ∧ sizeofHeader1Plus ≤ h.cbHeader.toNat := by
  have size : sizeofHeader1Plus ≤ (UInt32.ofNat sizeofHeader1Plus).toNat := by decide
  exact ⟨_, _, rfl, size⟩

/-- A new image that is closed and opened again has the header and the table it
was made with. -/
theorem Created.reopened (created : Created args image) (fits : LayoutFits args)
    {uOpenFlags : OpenFlags} {image' : VdiImage}
    (result : vdiOpenImage (vdiClose image) uOpenFlags = .ok image') :
    image'.header = createHeader args ∧ image'.paBlocks = image.paBlocks ∧
      image.file.size ≤ image'.file.size ∧ Opened (vdiClose image) uOpenFlags image' := by
  have setUp := created.setUp
  have opened := vdiOpenImage_opened result
  obtain ⟨flushed, stored, -, size⟩ := created.onDisk.flush (created.layout fits) setUp
  have flushes : vdiFlushImage image = vdiUpdateHeader image := by
    rw [vdiFlushImage, created.flags_eq]
    rfl
  have version := flushed.version
  rw [created.header_eq] at stored
  obtain ⟨h, g, header, long⟩ := createHeader_v1 args
  rw [flushes] at stored version size flushed
  have closed : vdiClose image = (vdiUpdateHeader image).file := by rw [vdiClose, flushes]
  rw [closed] at opened
  have sameHeader : image'.header = createHeader args := by
    have read := opened.header
    have same : (vdiUpdateHeader image).header = .v1 1 h g := created.header_eq.trans header
    rw [same] at version
    rw [header, StoredHeader, if_neg (Nat.not_lt_of_le long)] at stored
    obtain ⟨major, minor⟩ := version
    rw [readHeader_plus major long stored.1 stored.2, ← minor] at read
    rw [header]
    exact (congrArg Prod.snd read).symm
  have sameOffset : image'.offStartBlocks = image.offStartBlocks := by
    rw [opened.setUp.offStartBlocks, setUp.offStartBlocks, sameHeader, created.header_eq]
  refine ⟨sameHeader, ?_, ?_, ?_⟩
  · rw [opened.paBlocks_eq, sameOffset, sameHeader, ← created.header_eq]
    exact flushed.table.words_eq (setUp.updateTable rfl)
  · rw [opened.file_eq]
    exact size
  · rw [closed]
    exact opened

end Consistent

/-! ### Images to start from -/

/-- `vdiCreate` returns the image it made, or that image opened again. -/
theorem vdiCreate_cases {args : CreateArgs} {uOpenFlags : OpenFlags} {image : VdiImage}
    (result : vdiCreate args uOpenFlags = .ok image) :
    AcceptedSize args ∧ ∃ made, vdiCreateImage args = .ok made ∧
      (image = made ∨ uOpenFlags.readOnly = true ∧
        vdiOpenImage (vdiClose made) uOpenFlags = .ok image) := by
  unfold vdiCreate at result
  split at result
  · cases result
  split at result
  · cases result
  rename_i small
  split at result
  · cases result
  rename_i large
  have accepted : AcceptedSize args := ⟨Nat.le_of_not_lt large, by omega⟩
  cases making : vdiCreateImage args with
  | error rc =>
    rw [making] at result
    cases result
  | ok made =>
    rw [making] at result
    dsimp only at result
    refine ⟨accepted, made, rfl, ?_⟩
    split at result
    · rename_i readOnly
      cases reopening : vdiOpenImage (vdiClose made) uOpenFlags with
      | error e =>
        rw [reopening] at result
        cases result
      | ok reopened =>
        rw [reopening] at result
        cases result
        exact Or.inr ⟨readOnly, rfl⟩
    · cases result
      exact Or.inl rfl

/-- An image `vdiCreate` made: as it returned it, or closed and opened again. -/
inductive MadeByCreate (args : CreateArgs) : VdiImage → Prop where
  | created {uOpenFlags : OpenFlags} {image : VdiImage}
      (result : vdiCreate args uOpenFlags = .ok image) : MadeByCreate args image
  | reopened {uOpenFlags uOpenFlags' : OpenFlags} {made image : VdiImage}
      (result : vdiCreate args uOpenFlags = .ok made)
      (opened : vdiOpenImage (vdiClose made) uOpenFlags' = .ok image) : MadeByCreate args image

/-- What an image made by `vdiCreate` starts with. -/
structure FreshImage (args : CreateArgs) (image : VdiImage) : Prop where
  store : StoreInv image
  dense : Dense image
  onDisk : OnDisk image
  header_eq : image.header = createHeader args

theorem Created.fresh {args : CreateArgs} {image : VdiImage} (created : Created args image)
    (fits : LayoutFits args) : FreshImage args image :=
  ⟨created.storeInv fits, created.dense fits, created.onDisk, created.header_eq⟩

/-- A fresh image that is closed and opened again is fresh. -/
theorem Created.fresh_reopened {args : CreateArgs} {image image' : VdiImage}
    (created : Created args image) (fits : LayoutFits args) {uOpenFlags : OpenFlags}
    (result : vdiOpenImage (vdiClose image) uOpenFlags = .ok image') : FreshImage args image' := by
  obtain ⟨header, entries, size, opened⟩ := created.reopened fits result
  have inv := created.storeInv fits
  have setUp := created.setUp
  have header' : image'.header = image.header := header.trans created.header_eq.symm
  have total : image'.cbTotalBlockData = image.cbTotalBlockData := by
    rw [opened.setUp.cbTotalBlockData, setUp.cbTotalBlockData, header']
  have offData : image'.offStartData = image.offStartData := by
    rw [opened.setUp.offStartData, setUp.offStartData, header']
  have extra : image'.offStartBlockData = image.offStartBlockData := by
    rw [opened.setUp.offStartBlockData, setUp.offStartBlockData, header']
  have slots : ∀ {i p : Nat}, HasSlot image' i p → HasSlot image i p := by
    rintro i p ⟨entry, inUse⟩
    rw [entries] at entry
    exact ⟨entry, inUse⟩
  have ends : ∀ p, slotEnd image' p = slotEnd image p := by
    intro p
    rw [slotEnd, slotEnd, total, offData, extra, header']
  obtain ⟨headerEnd, tableEnd, noWrap⟩ := created.layout fits
  have formed : WellFormed image' := by
    constructor
    · constructor
      · rw [header', opened.setUp.offStartBlocks, header', ← setUp.offStartBlocks]
        exact headerEnd
      · rw [offData, header', opened.setUp.offStartBlocks, header', ← setUp.offStartBlocks]
        exact tableEnd
      · rw [offData, extra, header']
        exact noWrap
    · intro i j p left right
      exact (created.slot (slots left)).1.symm.trans (created.slot (slots right)).1
    · intro i p slot
      rw [header']
      exact inv.table.slot_lt (slots slot)
    · intro i p slot
      rw [ends]
      exact (inv.inFile i p (slots slot)).trans size
  refine ⟨opened.storeInv formed, ⟨?_, ?_⟩, opened.onDisk, header⟩
  · rw [entries, header']
    exact (created.dense fits).packed
  · rw [offData, header', total, opened.cbImage_eq, ← opened.file_eq]
    exact created.inFile.trans size

/-- Closing an image opened read-only leaves the file it was opened from. -/
theorem Opened.close_readOnly {file : ByteFile} {uOpenFlags : OpenFlags} {image : VdiImage}
    (opened : Opened file uOpenFlags image) (readOnly : uOpenFlags.readOnly = true) :
    vdiClose image = file := by
  rw [vdiClose, vdiFlushImage, opened.flags_eq, if_pos readOnly, opened.file_eq]

theorem MadeByCreate.fresh {args : CreateArgs} {image : VdiImage} (made : MadeByCreate args image)
    (fits : LayoutFits args) : FreshImage args image := by
  cases made with
  | created result =>
    obtain ⟨accepted, made, making, rfl | ⟨-, reopening⟩⟩ := vdiCreate_cases result
    · exact (vdiCreateImage_created accepted fits making).fresh fits
    · exact (vdiCreateImage_created accepted fits making).fresh_reopened fits reopening
  | reopened result opened =>
    obtain ⟨accepted, made, making, rfl | ⟨readOnly, reopening⟩⟩ := vdiCreate_cases result
    · exact (vdiCreateImage_created accepted fits making).fresh_reopened fits opened
    · rw [(vdiOpenImage_opened reopening).close_readOnly readOnly] at opened
      exact (vdiCreateImage_created accepted fits making).fresh_reopened fits opened

end VBox.Storage.Vdi
