import VBox.Storage.Vdi.Durability

/-!
Flushing, closing and opening again.

An image whose table is on disk can be flushed, closed and opened again with any
flags; the reopened image has the same table and answers every read the same
way. Conversely `Opened.storeInv` and `Opened.onDisk` say what an image opened
from a well-formed file starts with.
-/

namespace VBox.Storage.Vdi

open VBox.Lib

/-! ### Opening what is on disk -/

variable {u32Version : UInt32} {header : VdiHeader}

section Reopening

variable {image : VdiImage}

/-- The fields of two headers that the block layer reads agree. -/
structure SameFields (header header' : VdiHeader) : Prop where
  blocks : getImageBlocks header' = getImageBlocks header
  blockSize : getImageBlockSize header' = getImageBlockSize header
  extra : getImageExtraBlockSize header' = getImageExtraBlockSize header
  diskSize : getImageDiskSize header' = getImageDiskSize header
  allocated : getImageBlocksAllocated header' = getImageBlocksAllocated header
  blocksOffset : getImageBlocksOffset header' = getImageBlocksOffset header
  dataOffset : getImageDataOffset header' = getImageDataOffset header

variable {h : VdiHeader1} {g : VdiDiskGeometry}

/-- Replacing the size field and the LCHS geometry of a version 1 header keeps it
valid when the size is still accepted and the geometry, if any, is. -/
theorem vdiValidateHeader_geometry {minor : Nat} {h' : VdiHeader1} {g' : VdiDiskGeometry}
    (valid : vdiValidateHeader (.v1 minor h g) = .vinfSuccess)
    (same : h' = { h with cbHeader := h'.cbHeader }) (size : sizeofHeader1 ≤ h'.cbHeader.toNat)
    (geometry : (getImageLCHSGeometry (.v1 minor h' g')).any
      (fun g => g.cbSector != vdiGeometrySectorSize) = false) :
    vdiValidateHeader (.v1 minor h' g') = .vinfSuccess := by
  rw [vdiValidateHeader_eq_success] at valid ⊢
  obtain ⟨offsets, common⟩ := valid
  generalize h'.cbHeader = cbHeader at same size
  subst same
  constructor
  · simp only [validateOffsets, Bool.and_eq_true, decide_eq_true_eq] at offsets ⊢
    exact ⟨⟨size, offsets.1.2⟩, offsets.2⟩
  · unfold commonChecksFail at common ⊢
    rw [geometry]
    simp only [Bool.or_eq_false_iff] at common ⊢
    obtain ⟨⟨⟨⟨⟨⟨⟨⟨type, flags⟩, -⟩, sizes⟩, count⟩, extra⟩, covers⟩, created⟩, modified⟩ := common
    exact ⟨⟨⟨⟨⟨⟨⟨⟨type, flags⟩, trivial⟩, sizes⟩, count⟩, extra⟩, covers⟩, created⟩, modified⟩

/-- A stored "1+" header is read back as it is. -/
theorem readHeader_plus {file : ByteFile} {uOpenFlags : OpenFlags}
    (major : ¬ u32Version.toNat >>> 16 = 0) (long : sizeofHeader1Plus ≤ h.cbHeader.toNat)
    (fits : sizeofPreHeader + sizeofHeader1Plus ≤ file.size)
    (decoded : header1PlusCodec.dec (file.byte.drop sizeofPreHeader) = (h, g)) :
    readHeader file uOpenFlags u32Version =
      (.vinfSuccess, .v1 (u32Version.toNat % 2 ^ 16) h g) := by
  have first : header1Codec.dec (file.byte.drop sizeofPreHeader) = h := congrArg Prod.fst decoded
  have prefixed : sizeofHeader1 ≤ sizeofHeader1Plus := by decide
  have shorter := (Nat.add_le_add_left prefixed sizeofPreHeader).trans fits
  have whole : file.read sizeofPreHeader sizeofHeader1Plus =
      some (file.byte.drop sizeofPreHeader) := ByteFile.read_eq_some.mpr ⟨fits, rfl⟩
  rw [readHeader, if_neg major]
  dsimp only
  rw [ByteFile.read_eq_some.mpr ⟨shorter, rfl⟩]
  dsimp only
  rw [first, if_neg (fun both => Nat.not_lt_of_le long both.2.2), if_pos long, whole]
  dsimp only
  rw [decoded]

/-- A stored header is read back, up to the conversion to the 1.1+ form. -/
theorem readHeader_stored {file : ByteFile} (version : VersionOf u32Version header)
    (stored : StoredHeader file header) (valid : vdiValidateHeader header = .vinfSuccess)
    (uOpenFlags : OpenFlags) :
    ∃ header', readHeader file uOpenFlags u32Version = (.vinfSuccess, header') ∧
      SameFields header header' ∧ vdiValidateHeader header' = .vinfSuccess := by
  cases header with
  | v0 h =>
    obtain ⟨fits, decoded⟩ := stored
    have plain : u32Version.toNat >>> 16 = 0 := version
    refine ⟨.v0 h, ?_, ⟨rfl, rfl, rfl, rfl, rfl, rfl, rfl⟩, valid⟩
    rw [readHeader, if_pos plain, ByteFile.read_eq_some.mpr ⟨fits, rfl⟩]
    dsimp only
    rw [decoded]
  | v1 minor h g =>
    obtain ⟨major, rfl⟩ := version
    have accepted : sizeofHeader1 ≤ h.cbHeader.toNat := by
      have offsets := (vdiValidateHeader_eq_success.mp valid).1
      simp only [validateOffsets, Bool.and_eq_true, decide_eq_true_eq] at offsets
      exact offsets.1.1
    rw [StoredHeader] at stored
    split at stored
    · rename_i short
      obtain ⟨fits, decoded⟩ := stored
      rw [readHeader, if_neg major]
      dsimp only
      rw [ByteFile.read_eq_some.mpr ⟨fits, rfl⟩]
      dsimp only
      rw [decoded, if_neg (Nat.not_le_of_lt short)]
      split
      · -- converted to the 1.1+ form
        refine ⟨_, rfl, ⟨rfl, rfl, rfl, rfl, rfl, rfl, rfl⟩, ?_⟩
        have plus : sizeofHeader1 ≤ (UInt32.ofNat sizeofHeader1Plus).toNat := by decide
        refine vdiValidateHeader_geometry valid rfl plus ?_
        rw [getImageLCHSGeometry]
        split
        · split
          · rfl
          · decide
        · rfl
      · refine ⟨_, rfl, ⟨rfl, rfl, rfl, rfl, rfl, rfl, rfl⟩, ?_⟩
        refine vdiValidateHeader_geometry valid rfl accepted ?_
        rw [getImageLCHSGeometry, if_pos short]
        split <;> rfl
    · rename_i long
      obtain ⟨fits, decoded⟩ := stored
      exact ⟨_, readHeader_plus major (Nat.le_of_not_lt long) fits decoded,
        ⟨rfl, rfl, rfl, rfl, rfl, rfl, rfl⟩, valid⟩

/-- Flushing stores the header. -/
theorem headerBytes_stored (file : ByteFile) (header : VdiHeader) :
    StoredHeader (file.write sizeofPreHeader (headerBytes header).1 (headerBytes header).2)
      header := by
  cases header with
  | v0 h =>
    have positive : 0 < sizeofHeader0 := by decide
    exact ⟨ByteFile.end_le_write _ _ _ _ positive, ByteFile.dec_write _ _ header0Codec h⟩
  | v1 minor h g =>
    rw [StoredHeader, headerBytes]
    split
    · have positive : 0 < sizeofHeader1 := by decide
      exact ⟨ByteFile.end_le_write _ _ _ _ positive, ByteFile.dec_write _ _ header1Codec h⟩
    · have positive : 0 < sizeofHeader1Plus := by decide
      exact ⟨ByteFile.end_le_write _ _ _ _ positive, ByteFile.dec_write _ _ header1PlusCodec (h, g)⟩

/-- A stored header stays stored when the bytes up to its end are kept. -/
theorem StoredHeader.congr {file file' : ByteFile} (stored : StoredHeader file header)
    (bytes : ∀ k < sizeofPreHeader + (headerBytes header).1, file'.byte k = file.byte k)
    (size : file.size ≤ file'.size) : StoredHeader file' header := by
  have agree : ∀ {α : Type} (c : Codec α), c.width = (headerBytes header).1 →
      c.dec (file'.byte.drop sizeofPreHeader) = c.dec (file.byte.drop sizeofPreHeader) := by
    intro α c width
    refine c.dec_congr _ _ fun k below => bytes _ ?_
    rw [← width]
    exact Nat.add_lt_add_left below _
  cases header with
  | v0 h =>
    obtain ⟨fits, decoded⟩ := stored
    exact ⟨fits.trans size, (agree header0Codec rfl).trans decoded⟩
  | v1 minor h g =>
    rw [StoredHeader] at stored ⊢
    split at stored
    · rename_i short
      obtain ⟨fits, decoded⟩ := stored
      have width : header1Codec.width = (headerBytes (.v1 minor h g)).1 := by
        rw [headerBytes, if_pos short]
        rfl
      rw [if_pos short]
      exact ⟨fits.trans size, (agree header1Codec width).trans decoded⟩
    · rename_i long
      obtain ⟨fits, decoded⟩ := stored
      have width : header1PlusCodec.width = (headerBytes (.v1 minor h g)).1 := by
        rw [headerBytes, if_neg long]
        rfl
      rw [if_neg long]
      exact ⟨fits.trans size, (agree header1PlusCodec width).trans decoded⟩

/-- A flush stores the header and changes nothing from the table on. -/
theorem OnDisk.flush (onDisk : OnDisk image) (layout : Layout image) (setUp : SetUp image) :
    OnDisk (vdiFlushImage image) ∧ StoredHeader (vdiFlushImage image).file image.header ∧
      (∀ k, image.offStartBlocks ≤ k → (vdiFlushImage image).file.byte k = image.file.byte k) ∧
      image.file.size ≤ (vdiFlushImage image).file.size := by
  unfold vdiFlushImage
  split
  · rename_i readOnly
    exact ⟨onDisk, onDisk.header readOnly, fun _ _ => rfl, le_refl _⟩
  · rename_i writable
    have headerEnd := layout.headerEnd
    have grown := ByteFile.size_le_write image.file sizeofPreHeader (headerBytes image.header).1
      (headerBytes image.header).2
    have stored := headerBytes_stored image.file image.header
    have pre : preHeaderCodec.dec ((vdiUpdateHeader image).file.byte.drop 0) =
        preHeaderCodec.dec (image.file.byte.drop 0) := by
      refine preHeaderCodec.dec_congr _ _ fun k below => ?_
      refine ByteFile.byte_write_of_not_mem (Or.inl ?_)
      rw [Nat.zero_add]
      exact below
    refine ⟨?_, stored, fun k behind => ?_, grown⟩
    · constructor
      · rw [pre]
        exact onDisk.preHeader
      · rw [pre]
        exact onDisk.version
      · exact fun readOnly => absurd readOnly writable
      · exact onDisk.tableInside.trans grown
      · intro i p found
        obtain ⟨place, -⟩ := layout.storedEntry_place setUp found
        exact (storedEntry_write (Or.inl place)).trans (onDisk.table i p found)
    · exact ByteFile.byte_write_of_not_mem (Or.inr (headerEnd.trans behind))

/-- A file with a header that is read back and a table that can be inverted opens. -/
theorem vdiOpenImage_stored {file : ByteFile} {uOpenFlags : OpenFlags}
    (pre : sizeofPreHeader ≤ file.size)
    (preValid : vdiValidatePreHeader (preHeaderCodec.dec (file.byte.drop 0)) = .vinfSuccess)
    (found : readHeader file uOpenFlags (preHeaderCodec.dec (file.byte.drop 0)).u32Version =
      (.vinfSuccess, header)) (valid : vdiValidateHeader header = .vinfSuccess)
    (inside : getImageBlocksOffset header + getImageBlocks header * 4 ≤ file.size)
    (inverse : uOpenFlags.discard = true → ∃ rev, Indexes IsAllocated vdiImageBlockFree
      (words (file.byte.drop (getImageBlocksOffset header)) (getImageBlocks header)) rev
      (getImageBlocksAllocated header)) :
    ∃ image, vdiOpenImage file uOpenFlags = .ok image ∧ image.header = header ∧ image.paBlocks =
        words (file.byte.drop (getImageBlocksOffset header)) (getImageBlocks header) := by
  have preRead : file.read 0 sizeofPreHeader = some (file.byte.drop 0) :=
    ByteFile.read_eq_some.mpr ⟨by omega, rfl⟩
  have offset : (vdiSetupImageDesc (openDesc file uOpenFlags header)).offStartBlocks =
      getImageBlocksOffset header := rfl
  have tableRead : file.read (getImageBlocksOffset header) (getImageBlocks header * 4) =
      some (file.byte.drop (getImageBlocksOffset header)) :=
    ByteFile.read_eq_some.mpr ⟨inside, rfl⟩
  unfold vdiOpenImage
  dsimp only
  rw [preRead]
  dsimp only
  rw [if_neg (not_not.mpr preValid), found]
  dsimp only
  rw [if_neg (not_not.mpr rfl), if_neg (not_not.mpr valid), offset, tableRead]
  dsimp only
  split
  · rename_i discard
    obtain ⟨rev, indexes⟩ := inverse discard
    generalize words (file.byte.drop (getImageBlocksOffset header)) (getImageBlocks header) =
      paBlocks at indexes ⊢
    have empty := indexes_replicate (n := getImageBlocksAllocated header)
      (validHeader_of_success valid).allocated
    obtain ⟨rev', resolved⟩ := resolveBlocks_total [] empty indexes
    rw [List.length_nil] at resolved
    rw [resolved]
    exact ⟨_, rfl, rfl, rfl⟩
  · exact ⟨_, rfl, rfl, rfl⟩

/-- A file that holds everything opens again, with the same table. -/
theorem OnDisk.reopen (onDisk : OnDisk image) (layout : Layout image) (table : TableInv image)
    (valid : vdiValidateHeader image.header = .vinfSuccess)
    (stored : StoredHeader image.file image.header) (uOpenFlags : OpenFlags) :
    ∃ image', vdiOpenImage image.file uOpenFlags = .ok image' ∧
      image'.paBlocks = image.paBlocks ∧ SameFields image.header image'.header := by
  have headerEnd := layout.headerEnd
  have inside := onDisk.tableInside
  obtain ⟨header', opened, same, valid'⟩ := readHeader_stored onDisk.version stored valid uOpenFlags
  have offset : getImageBlocksOffset header' = image.offStartBlocks :=
    same.blocksOffset.trans table.setUp.offStartBlocks.symm
  have entries : words (image.file.byte.drop (getImageBlocksOffset header'))
      (getImageBlocks header') = image.paBlocks := by
    rw [offset, same.blocks]
    exact onDisk.table.words_eq table.setUp
  obtain ⟨image', result, header, paBlocks⟩ := vdiOpenImage_stored (by omega) onDisk.preHeader
    opened valid' (by rw [offset, same.blocks]; exact inside) (fun _ => by
      obtain ⟨rev, -, -, indexes⟩ := table.reverse
      rw [entries, same.allocated]
      exact ⟨rev, indexes⟩)
  exact ⟨image', result, paBlocks.trans entries, header ▸ same⟩

/-- An opened image over the same table and data answers every read inside the
disk the same way. -/
theorem StoreInv.reads_same (inv : StoreInv image) {file : ByteFile} {uOpenFlags : OpenFlags}
    {image' : VdiImage} (opened : Opened file uOpenFlags image')
    (entries : image'.paBlocks = image.paBlocks) (same : SameFields image.header image'.header)
    (bytes : ∀ k, image.offStartBlocks ≤ k → file.byte k = image.file.byte k)
    (size : image.file.size ≤ file.size) {uOffset cb : Nat} (positive : 0 < cb)
    (inside : uOffset + cb ≤ getImageDiskSize image.header) :
    vdiRead image' uOffset cb = vdiRead image uOffset cb := by
  have setUp := inv.table.setUp
  have setUp' := opened.setUp
  obtain ⟨ptrBlock, entry, run⟩ := vdiRead_cases setUp positive inside
  obtain ⟨ptrBlock', entry', run'⟩ :=
    vdiRead_cases setUp' positive (by rw [same.diskSize]; exact inside)
  -- the request addresses the same block and the same place in it
  have block : blockIndex image' uOffset = blockIndex image uOffset := by
    rw [blockIndex, blockIndex, setUp.uShiftOffset2Index, setUp'.uShiftOffset2Index, same.blockSize]
  have offset : blockOffset image' uOffset = blockOffset image uOffset := by
    rw [blockOffset, blockOffset, setUp.uBlockMask, setUp'.uBlockMask, same.blockSize]
  have clip : clipToBlock image' uOffset cb = clipToBlock image uOffset cb := by
    rw [clipToBlock, clipToBlock, offset, same.blockSize]
  have place : ∀ p off, dataOffset image' p off = dataOffset image p off := by
    intro p off
    rw [dataOffset, dataOffset, setUp.cbTotalBlockData, setUp'.cbTotalBlockData,
      setUp.offStartData, setUp'.offStartData, setUp.offStartBlockData, setUp'.offStartBlockData,
      same.blockSize, same.extra, same.dataOffset]
  rw [block, entries, entry] at entry'
  cases entry'
  rw [run', run]
  dsimp only
  rw [clip, offset, place, opened.file_eq, opened.cbImage_eq]
  rcases blockPointer_cases (inv.entries _ (List.mem_of_getElem? entry)) with rfl | rfl | inUse
  · rfl
  · rfl
  · have slot : HasSlot image (blockIndex image uOffset) ptrBlock := ⟨entry, inUse⟩
    have range := setUp.clip_le uOffset cb
    have placed := inv.layout.dataOffset_eq ptrBlock (setUp.blockOffset_lt uOffset)
    have covered := inv.table.covered _ _ slot
    have held := inv.inFile _ _ slot
    have tableEnd := inv.layout.tableEnd
    unfold slotEnd at covered held
    have dataSame : file.byte.drop (dataOffset image ptrBlock (blockOffset image uOffset)) =
        image.file.byte.drop (dataOffset image ptrBlock (blockOffset image uOffset)) := by
      funext k
      exact bytes _ (by omega)
    rw [dataSame]
    repeat rw [if_pos (c := _ ≤ _) (by omega)]

end Reopening

/-! ### Opened images -/

section OpenedImages

variable {image : VdiImage} {file : ByteFile} {uOpenFlags : OpenFlags}

/-- What a VDI file is supposed to look like: no slot shared, every slot counted
and in the file, and the parts of the file in their places. -/
structure WellFormed (image : VdiImage) : Prop where
  layout : Layout image
  distinct : ∀ i j p, HasSlot image i p → HasSlot image j p → i = j
  below : ∀ i p, HasSlot image i p → p < getImageBlocksAllocated image.header
  inFile : ∀ i p, HasSlot image i p → slotEnd image p ≤ image.file.size

/-- The entries are 32-bit values. -/
theorem Opened.entries (opened : Opened file uOpenFlags image) :
    ∀ p ∈ image.paBlocks, p < 2 ^ 32 := by
  intro p member
  rw [opened.paBlocks_eq] at member
  obtain ⟨i, entry⟩ := List.mem_iff_getElem?.mp member
  rw [getElem?_words] at entry
  split at entry
  · cases entry
    exact wordAt_lt _ _
  · cases entry

theorem Opened.storeInv (opened : Opened file uOpenFlags image) (formed : WellFormed image) :
    StoreInv image := by
  have setUp := opened.setUp
  refine ⟨⟨setUp, ?_, fun i p slot => ?_⟩, formed.layout, opened.entries, formed.inFile⟩
  · cases discard : uOpenFlags.discard with
    | true =>
      obtain ⟨rev, reverse, length, indexes⟩ := opened.rev_some discard
      refine ⟨rev, fun stored found => ?_, length.ge, indexes⟩
      rw [reverse] at found
      exact (Option.some.inj found).symm
    | false =>
      obtain ⟨rev, length, indexes⟩ : ∃ rev, rev.length = getImageBlocks image.header ∧
          Indexes IsAllocated vdiImageBlockFree image.paBlocks rev
            (getImageBlocksAllocated image.header) :=
        Indexes.exists_of_distinct setUp.valid.allocated
          (fun i p entry inUse => formed.below i p ⟨entry, inUse⟩)
          (fun i j p left right inUse => formed.distinct i j p ⟨left, inUse⟩ ⟨right, inUse⟩)
      refine ⟨rev, fun stored found => ?_, length.ge, indexes⟩
      rw [opened.rev_none discard] at found
      cases found
  · rw [opened.cbImage_eq, ← opened.file_eq]
    exact formed.inFile i p slot

/-- A header read without conversion is stored, in the layout of its version. -/
theorem readHeader_success (read : readHeader file uOpenFlags u32Version = (.vinfSuccess, header)) :
    VersionOf u32Version header ∧ (uOpenFlags.readOnly = true → StoredHeader file header) := by
  unfold readHeader at read
  split at read
  · rename_i plain
    split at read
    · cases read
    · rename_i buf found
      obtain ⟨fits, rfl⟩ := ByteFile.read_eq_some.mp found
      cases read
      exact ⟨plain, fun _ => ⟨fits, rfl⟩⟩
  · rename_i major
    dsimp only at read
    split at read
    · cases read
    rename_i buf found
    obtain ⟨fits, rfl⟩ := ByteFile.read_eq_some.mp found
    split at read
    · rename_i converted
      cases read
      exact ⟨⟨major, rfl⟩, fun readOnly => absurd readOnly converted.1⟩
    split at read
    · rename_i long
      split at read
      · cases read
      rename_i buf' found'
      obtain ⟨fits', rfl⟩ := ByteFile.read_eq_some.mp found'
      cases read
      have long' : ¬ (header1PlusCodec.dec (file.byte.drop sizeofPreHeader)).1.cbHeader.toNat <
          sizeofHeader1Plus := Nat.not_lt_of_le long
      refine ⟨⟨major, rfl⟩, fun _ => ?_⟩
      rw [StoredHeader, if_neg long']
      exact ⟨fits', rfl⟩
    · rename_i short
      cases read
      refine ⟨⟨major, rfl⟩, fun _ => ?_⟩
      rw [StoredHeader, if_pos (Nat.lt_of_not_le short)]
      exact ⟨fits, rfl⟩

theorem Opened.onDisk (opened : Opened file uOpenFlags image) : OnDisk image := by
  obtain ⟨version, stored⟩ := readHeader_success opened.header
  constructor
  · rw [opened.file_eq]
    exact opened.preHeader.2
  · rw [opened.file_eq]
    exact version
  · rw [opened.file_eq, opened.flags_eq]
    exact stored
  · rw [opened.file_eq]
    exact opened.table_inside
  · intro i p entry
    rw [opened.paBlocks_eq, getElem?_words] at entry
    rw [opened.file_eq]
    split at entry
    · exact Option.some.inj entry
    · cases entry

end OpenedImages

end VBox.Storage.Vdi
