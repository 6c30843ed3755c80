import VBox.Storage.Vdi.CreateLayout

/-!
What `vdiResize` does to the data on the disk.

The relocation moves the block in slot 0 behind the file and lets the data area
start one block later, as often as the new table reaches into the data. It is
right when the slots it moves are all in use and the end of the file is where
the slot after the last one starts.
-/

namespace VBox.Storage.Vdi

open VBox.Lib List Option

/-- A valid dynamic image: the slots are different, counted and in the file. -/
structure Resizable (image : VdiImage) : Prop where
  setUp : SetUp image
  layout : Layout image
  entries : ∀ p ∈ image.paBlocks, p < 2 ^ 32
  validated : vdiValidateHeader image.header = .vinfSuccess
  distinct : ∀ i j p, HasSlot image i p → HasSlot image j p → i = j
  below : ∀ i p, HasSlot image i p → p < getImageBlocksAllocated image.header
  inFile : ∀ i p, HasSlot image i p → slotEnd image p ≤ image.file.size

/-- Where slot `p` starts in the file. -/
def slotStart (image : VdiImage) (p : Nat) : Nat :=
  image.offStartData + p * image.cbTotalBlockData

/-- How many of the slots below `n` come before the first that is not in use. -/
def leadingSlots (paBlocks : List Nat) : Nat → Nat
  | 0 => 0
  | n + 1 =>
      if leadingSlots paBlocks n = n ∧ n ∈ paBlocks then n + 1 else leadingSlots paBlocks n

/-- How many slots a resize moves. -/
def movedSlots (image : VdiImage) (cbSize : Nat) : Nat :=
  if NeedsRelocation image cbSize then leadingSlots image.paBlocks (resizeReloc image cbSize)
  else 0

theorem leadingSlots_spec (paBlocks : List Nat) (n : Nat) :
    leadingSlots paBlocks n ≤ n ∧ (∀ p < leadingSlots paBlocks n, p ∈ paBlocks) ∧
      (leadingSlots paBlocks n < n → leadingSlots paBlocks n ∉ paBlocks) := by
  induction n with
  | zero => exact ⟨le_refl 0, fun p none => absurd none (Nat.not_lt_zero p), fun less => by
    exact absurd less (Nat.not_lt_zero _)⟩
  | succ n ih =>
    obtain ⟨le, used, ends⟩ := ih
    rw [leadingSlots]
    split
    · rename_i more
      refine ⟨le_refl _, fun p below => ?_, fun less => absurd less (lt_irrefl _)⟩
      rcases Nat.lt_succ_iff_lt_or_eq.mp below with old | rfl
      · exact used p (by omega)
      · exact more.2
    · rename_i stops
      refine ⟨by omega, used, fun _ => ?_⟩
      rcases Nat.eq_or_lt_of_le le with last | less
      · rw [last]
        exact fun member => stops ⟨last, member⟩
      · exact ends less

/-! ### Relocating blocks -/

section Relocation

variable {image : VdiImage}

theorem Resizable.slot_inside (valid : Resizable image) {i p : Nat} (slot : HasSlot image i p) :
    slotStart image p + image.cbTotalBlockData ≤ image.file.size := by
  have held := valid.inFile i p slot
  have total := valid.layout.cbTotalBlockData_eq valid.setUp
  rw [slotEnd] at held
  rw [slotStart]
  omega

/-- The first `k` slots have been moved behind the file and zeroed where they were. -/
structure Relocated (image : VdiImage) (k : Nat) (file : ByteFile) : Prop where
  size : file.size = image.file.size + k * image.cbTotalBlockData
  byte : ∀ x, file.byte x =
    if image.file.size ≤ x ∧ x < image.file.size + k * image.cbTotalBlockData then
      image.file.byte (image.offStartData + (x - image.file.size))
    else if image.offStartData ≤ x ∧ x < slotStart image k then 0
    else image.file.byte x

/-- The image after `k` relocations. -/
def relocatedImage (image : VdiImage) (k : Nat) (file : ByteFile) : VdiImage :=
  { image with
    file := file
    paBlocks := rotateTable (getImageBlocksAllocated image.header) k image.paBlocks }

theorem relocatedImage_zero (image : VdiImage) : relocatedImage image 0 image.file = image := by
  rw [relocatedImage, rotateTable_zero]

theorem relocated_zero (image : VdiImage) : Relocated image 0 image.file := by
  refine ⟨by omega, fun x => ?_⟩
  rw [slotStart, if_neg (by omega), if_neg (by omega)]

theorem Resizable.marks (valid : Resizable image) :
    getImageBlocksAllocated image.header ≤ vdiImageBlockZero :=
  (valid.layout.isAllocated valid.setUp.valid.allocated).le

theorem Resizable.isAllocated (valid : Resizable image) {p : Nat}
    (below : p < getImageBlocksAllocated image.header) : IsAllocated p :=
  lt_of_lt_of_le below valid.marks

theorem Resizable.relocate (valid : Resizable image) {k : Nat} {file : ByteFile}
    (relocated : Relocated image k file) (used : ∃ i, HasSlot image i k) :
    ∃ file', relocateBlock (relocatedImage image k file)
        (image.offStartData + k * image.cbTotalBlockData) =
          (.vinfSuccess, relocatedImage image (k + 1) file') ∧ Relocated image (k + 1) file' := by
  obtain ⟨i, slot⟩ := used
  have room := valid.below i k slot
  have inside := valid.slot_inside slot
  obtain ⟨size, byte⟩ := relocated
  have grown : (k + 1) * image.cbTotalBlockData =
    k * image.cbTotalBlockData + image.cbTotalBlockData := Nat.succ_mul _ _
  have zeroMember : 0 ∈ rotateTable (getImageBlocksAllocated image.header) k image.paBlocks := by
    refine List.mem_map.mpr ⟨k, mem_of_getElem? slot.1, ?_⟩
    rw [if_pos slot.2, rotated_self.1]
  have found : ((rotateTable (getImageBlocksAllocated image.header) k image.paBlocks).findIdx?
      (· == 0)).isSome := by
    rw [findIdx?_isSome, List.any_eq_true]
    exact ⟨0, zeroMember, by simp⟩
  obtain ⟨idxBlock, search⟩ := isSome_iff_exists.mp found
  obtain ⟨insideTable, isZero, -⟩ := findIdx?_eq_some_iff_getElem.mp search
  have entry : (rotateTable (getImageBlocksAllocated image.header) k image.paBlocks)[idxBlock]? =
      some 0 := by
    rw [getElem?_eq_getElem insideTable]
    simpa using isZero
  have small : ∀ p ∈ image.paBlocks, IsAllocated p → p < getImageBlocksAllocated image.header := by
    intro p member inUse
    obtain ⟨j, found⟩ := mem_iff_getElem?.mp member
    exact valid.below j p ⟨found, inUse⟩
  have renumbered := renumber_rotateTable room valid.marks small
    (fun i j p left right inUse => valid.distinct i j p ⟨left, inUse⟩ ⟨right, inUse⟩) entry
  have read : file.read (slotStart image k) image.cbTotalBlockData =
      some (file.byte.drop (slotStart image k)) :=
    ByteFile.read_eq_some.mpr ⟨by omega, rfl⟩
  refine ⟨(file.write file.size image.cbTotalBlockData (file.byte.drop (slotStart image k))).write
    (slotStart image k) image.cbTotalBlockData fun _ => 0, ?_, ?_, fun x => ?_⟩
  · rw [slotStart] at read
    simp only [relocateBlock, relocatedImage, search, read, renumbered, slotStart]
  · simp only [ByteFile.size_write]
    split <;> omega
  · have place : slotStart image (k + 1) = slotStart image k + image.cbTotalBlockData := by
      unfold slotStart
      omega
    have start : image.offStartData ≤ slotStart image k := Nat.le_add_right _ _
    rw [grown, place, ByteFile.byte_write, ByteFile.byte_write]
    by_cases zeroed : slotStart image k ≤ x ∧ x < slotStart image k + image.cbTotalBlockData
    · rw [if_pos zeroed, if_neg (by omega), if_pos (by omega)]
    rw [if_neg zeroed]
    by_cases appended : file.size ≤ x ∧ x < file.size + image.cbTotalBlockData
    · rw [if_pos appended, if_pos (by omega), Buf.drop_apply, byte, if_neg (by omega),
        if_neg (by omega)]
      congr 1
      unfold slotStart
      omega
    · rw [if_neg appended, byte]
      by_cases old : image.file.size ≤ x ∧ x < image.file.size + k * image.cbTotalBlockData
      · rw [if_pos old, if_pos (by omega)]
      · rw [if_neg old, if_neg (show ¬ (image.file.size ≤ x ∧ _) by omega)]
        by_cases before : image.offStartData ≤ x ∧ x < slotStart image k
        · rw [if_pos before, if_pos (by omega)]
        · rw [if_neg before, if_neg (by omega)]

/-- Relocations in a row. -/
theorem relocateBlocks_add {a b off off' : Nat} {start next : VdiImage}
    (run : relocateBlocks a off start = (.vinfSuccess, off', next)) :
    relocateBlocks (a + b) off start = relocateBlocks b off' next := by
  induction a generalizing off start with
  | zero =>
    cases run
    rw [Nat.zero_add]
  | succ a ih =>
    rw [Nat.succ_add, relocateBlocks]
    rw [relocateBlocks] at run
    split at run
    · exact ih run
    · rename_i failure _
      cases run
      exact (failure rfl).elim

/-- Moving a prefix of the slots, all of them in use. -/
theorem Resizable.relocate_all (valid : Resizable image) {r : Nat}
    (used : ∀ p < r, ∃ i, HasSlot image i p) : ∃ file, relocateBlocks r image.offStartData image =
        (.vinfSuccess, image.offStartData + r * image.cbTotalBlockData,
          relocatedImage image r file) ∧ Relocated image r file := by
  induction r with
  | zero =>
    refine ⟨image.file, ?_, relocated_zero image⟩
    rw [relocateBlocks, relocatedImage_zero, Nat.zero_mul, Nat.add_zero]
  | succ r ih =>
    obtain ⟨file, run, relocated⟩ := ih fun p below => used p (by omega)
    obtain ⟨file', step, next⟩ := valid.relocate relocated (used r (Nat.lt_succ_self r))
    refine ⟨file', ?_, next⟩
    rw [relocateBlocks_add run, relocateBlocks, step]
    simp only [relocateBlocks]
    rw [Nat.succ_mul, Nat.add_assoc]
    rfl

/-- The relocation comes to its end: it has moved the slots up to the first that
is not in use. -/
theorem Resizable.rebase (valid : Resizable image) (cbSize : Nat) :
    ∃ file, (if NeedsRelocation image cbSize then
          relocateBlocks (resizeReloc image cbSize) image.offStartData image
        else (.vinfSuccess, resizeDataOffset image cbSize, image)) =
        (.vinfSuccess, resizedDataOffset image cbSize,
          relocatedImage image (movedSlots image cbSize) file) ∧
      Relocated image (movedSlots image cbSize) file := by
  unfold resizedDataOffset movedSlots
  by_cases needed : NeedsRelocation image cbSize
  · rw [if_pos needed, if_pos needed, if_pos needed]
    obtain ⟨le, used, ends⟩ := leadingSlots_spec image.paBlocks (resizeReloc image cbSize)
    have few : resizeReloc image cbSize ≤ getImageBlocksAllocated image.header :=
      Nat.min_le_right _ _
    generalize leadingSlots image.paBlocks (resizeReloc image cbSize) = r at le used ends
    obtain ⟨file, run, relocated⟩ := valid.relocate_all (r := r) fun p below => by
      obtain ⟨i, entry⟩ := mem_iff_getElem?.mp (used p below)
      exact ⟨i, entry, valid.isAllocated (by omega)⟩
    refine ⟨file, ?_, relocated⟩
    obtain ⟨rest, total⟩ := Nat.exists_eq_add_of_le le
    rw [total, relocateBlocks_add run]
    rcases Nat.eq_zero_or_pos rest with rfl | more
    · rfl
    · rw [relocateBlocks_idle]
      · rw [relocatedImage, Nat.add_mul, Nat.add_assoc]
      · intro member
        obtain ⟨p, found, zero⟩ := List.mem_map.mp member
        have inUse : IsAllocated p := by
          by_contra mark
          rw [if_neg mark] at zero
          rw [zero] at mark
          exact mark (by decide)
        rw [if_pos inUse] at zero
        have same := rotated_eq_zero (by omega) zero
        rw [same] at found
        exact ends (by omega) found
  · rw [if_neg needed, if_neg needed, if_neg needed]
    exact ⟨image.file, by rw [relocatedImage_zero], relocated_zero image⟩

end Relocation

/-! ### The header after a resize -/

section Headers

variable {header : VdiHeader}

/-- The header a resize writes. -/
def resizedHeader (header : VdiHeader) (offData cbSize cBlocks : Nat) (geometry : VdiDiskGeometry) :
    VdiHeader :=
  setImageLCHSGeometry { geometry with cbSector := vdiGeometrySectorSize }
    (setImageBlocks cBlocks (setImageDiskSize cbSize (setImageDataOffset offData header)))

theorem resizedHeader_size (offData cbSize cBlocks : Nat) (geometry : VdiDiskGeometry) :
    (headerBytes (resizedHeader header offData cbSize cBlocks geometry)).1 =
      (headerBytes header).1 := by
  cases header with
  | v0 h => rfl
  | v1 minor h g =>
    simp only [resizedHeader, setImageDataOffset, setImageDiskSize, setImageBlocks,
      setImageLCHSGeometry]
    split <;> simp only [headerBytes] <;> split <;> rfl

/-- A valid header stays valid exactly when the new table ends before the new
data area. -/
theorem resizedHeader_valid_iff (version : getMajorHeaderVersion header ≠ 0)
    (valid : vdiValidateHeader header = .vinfSuccess) {offData cbSize cBlocks : Nat}
    (geometry : VdiDiskGeometry) (disk : cbSize < 2 ^ 64) (positive : 0 < cbSize)
    (blocks : cBlocks < 2 ^ 32) (grows : getImageBlocks header ≤ cBlocks)
    (covers : cbSize ≤ getImageBlockSize header * cBlocks) :
    vdiValidateHeader (resizedHeader header offData cbSize cBlocks geometry) = .vinfSuccess ↔
      getImageBlocksOffset header + cBlocks * 4 ≤ u32 offData := by
  rw [vdiValidateHeader_eq_success] at valid ⊢
  cases header with
  | v0 h => exact absurd rfl version
  | v1 minor h g =>
    obtain ⟨g', shape, sectors⟩ : ∃ g', resizedHeader (.v1 minor h g) offData cbSize cBlocks
          geometry = .v1 minor { h with
            offData := UInt32.ofNat offData
            cbDisk := UInt64.ofNat cbSize
            cBlocks := UInt32.ofNat cBlocks } g' ∧
        (getImageLCHSGeometry (resizedHeader (.v1 minor h g) offData cbSize cBlocks
          geometry)).any (fun g => g.cbSector != vdiGeometrySectorSize) = false := by
      simp only [resizedHeader, setImageDataOffset, setImageDiskSize, setImageBlocks,
        setImageLCHSGeometry]
      by_cases stores : minor = 1 ∧ ¬ h.cbHeader.toNat < sizeofHeader1Plus
      · rw [if_pos stores]
        refine ⟨_, rfl, ?_⟩
        simp [getImageLCHSGeometry, stores.1, stores.2]
      · rw [if_neg stores]
        refine ⟨g, rfl, ?_⟩
        have none : getImageLCHSGeometry (.v1 minor { h with
            offData := UInt32.ofNat offData
            cbDisk := UInt64.ofNat cbSize
            cBlocks := UInt32.ofNat cBlocks } g) = none := by
          dsimp only [getImageLCHSGeometry]
          split
          · rename_i one
            rw [if_pos (by_contra fun long => stores ⟨one, long⟩)]
          · rfl
        rw [none]
        rfl
    have cBlocks_eq : (UInt32.ofNat cBlocks).toNat = cBlocks := UInt32.toNat_ofNat_of_lt' blocks
    have cbDisk_eq : (UInt64.ofNat cbSize).toNat = cbSize := UInt64.toNat_ofNat_of_lt' disk
    have offData_eq : (UInt32.ofNat offData).toNat = u32 offData := UInt32.toNat_ofNat
    obtain ⟨offsets, common⟩ := valid
    have common' : commonChecksFail (resizedHeader (.v1 minor h g) offData cbSize cBlocks
        geometry) = false := by
      unfold commonChecksFail at common ⊢
      rw [sectors]
      rw [shape]
      simp only [Bool.or_eq_false_iff, decide_eq_false_iff_not] at common ⊢
      obtain ⟨⟨⟨⟨⟨⟨⟨⟨type, flags⟩, -⟩, sizes⟩, count⟩, extra⟩, -⟩, created⟩, modified⟩ := common
      refine ⟨⟨⟨⟨⟨⟨⟨⟨type, flags⟩, trivial⟩, ?_⟩, ?_⟩, extra⟩, ?_⟩, created⟩, modified⟩
      · simp only [getImageDiskSize, getImageBlockSize, getImageBlocks, cbDisk_eq,
          cBlocks_eq] at sizes grows ⊢
        omega
      · simp only [getImageBlocks, getImageBlocksAllocated, cBlocks_eq] at count grows ⊢
        omega
      · simp only [getImageBlockSize, getImageBlocks, getImageDiskSize, cbDisk_eq,
          cBlocks_eq] at covers ⊢
        omega
    rw [and_iff_left common', shape]
    simp only [validateOffsets, Bool.and_eq_true, decide_eq_true_eq, cBlocks_eq, offData_eq,
      getImageBlocksOffset] at offsets ⊢
    exact and_iff_right offsets.1

end Headers

/-! ### The disk after a resize -/

/-- Where the data area starts after a resize, as the 32-bit header field has it. -/
def newDataStart (image : VdiImage) (cbSize : Nat) : Nat := u32 (resizedDataOffset image cbSize)

/-- What a resize is expected to keep. -/
structure KeepsBlocks (image : VdiImage) (cbSize : Nat) (image' : VdiImage) : Prop where
  /-- no slot of a block overlaps the block table -/
  apart : ∀ i q, HasSlot image' i q →
    image'.offStartBlocks + resizeBlocks image cbSize * 4 ≤ slotStart image' q ∨
      slotStart image' q + image'.cbTotalBlockData ≤ image'.offStartBlocks
  /-- allocated blocks read the same -/
  reads : ∀ i p, HasSlot image i p → ∃ q, HasSlot image' i q ∧
    ∀ off < getImageBlockSize image.header,
      image'.file.byte (dataOffset image' q off) = image.file.byte (dataOffset image p off)
  /-- all other blocks keep their mark -/
  marks : ∀ i p : Nat, image.paBlocks[i]? = some p → ¬ IsAllocated p →
    image'.paBlocks[i]? = some p
  fresh : ∀ i : Nat, getImageBlocks image.header ≤ i → i < resizeBlocks image cbSize →
    image'.paBlocks[i]? = some vdiImageBlockFree
  validated : vdiValidateHeader image'.header = .vinfSuccess

/-- When a resize is right: no block of the table is lost, the new table ends
before the new data area, and each block is where its new slot number says,
behind the old end of the file if it was moved, and where it was if it was not. -/
structure ResizesRight (image : VdiImage) (cbSize : Nat) : Prop where
  grows : getImageBlocks image.header ≤ resizeBlocks image cbSize
  fits : image.offStartBlocks + resizeBlocks image cbSize * 4 ≤ newDataStart image cbSize
  moved : ∀ i p, HasSlot image i p → p < movedSlots image cbSize →
    image.file.size + p * image.cbTotalBlockData = newDataStart image cbSize +
      (p + getImageBlocksAllocated image.header - movedSlots image cbSize) * image.cbTotalBlockData
  kept : ∀ i p, HasSlot image i p → movedSlots image cbSize ≤ p →
    slotStart image p =
      newDataStart image cbSize + (p - movedSlots image cbSize) * image.cbTotalBlockData

/-- The image a resize leaves. -/
def resizedImage (image : VdiImage) (cbSize : Nat) (geometry : VdiDiskGeometry)
    (file : ByteFile) : VdiImage :=
  vdiFlushImage (expandTable
    (setDataOffset (relocatedImage image (movedSlots image cbSize) file)
      (resizedDataOffset image cbSize))
    cbSize (resizeBlocks image cbSize) geometry)

section Resizes

variable {image : VdiImage} {cbSize : Nat}

/-- A supported resize always succeeds. -/
theorem Resizable.resize (valid : Resizable image) (geometry : VdiDiskGeometry)
    (larger : getImageDiskSize image.header < cbSize)
    (version : getMajorHeaderVersion image.header ≠ 0)
    (dynamic : hasFlag image.uImageFlags vdImageFlagsFixed = false) :
    ∃ file, vdiResize image cbSize geometry =
        (.vinfSuccess, resizedImage image cbSize geometry file) ∧
      Relocated image (movedSlots image cbSize) file := by
  obtain ⟨file, run, relocated⟩ := valid.rebase cbSize
  refine ⟨file, ?_, relocated⟩
  have supported : ¬ (cbSize < getImageDiskSize image.header ∨
      getMajorHeaderVersion image.header = 0 ∨ hasFlag image.uImageFlags vdImageFlagsFixed) := by
    rintro (smaller | old | fixed)
    · omega
    · exact version old
    · rw [dynamic] at fixed
      cases fixed
  rw [vdiResize, if_neg supported, if_neg (by omega), run]
  rfl

/-! The fields of the resized image. -/

section Fields

variable (geometry : VdiDiskGeometry) (file : ByteFile)

theorem resizedImage_paBlocks : (resizedImage image cbSize geometry file).paBlocks =
    resizeTable (rotateTable (getImageBlocksAllocated image.header) (movedSlots image cbSize)
      image.paBlocks) (resizeBlocks image cbSize) := by
  unfold resizedImage vdiFlushImage
  split <;> rfl

theorem resizedImage_header : (resizedImage image cbSize geometry file).header =
    resizedHeader image.header (resizedDataOffset image cbSize) cbSize (resizeBlocks image cbSize)
      geometry := by
  unfold resizedImage vdiFlushImage
  split <;> rfl

theorem resizedImage_offsets :
    (resizedImage image cbSize geometry file).offStartBlocks = image.offStartBlocks ∧
      (resizedImage image cbSize geometry file).offStartData = newDataStart image cbSize ∧
      (resizedImage image cbSize geometry file).offStartBlockData = image.offStartBlockData ∧
      (resizedImage image cbSize geometry file).cbTotalBlockData = image.cbTotalBlockData := by
  unfold resizedImage vdiFlushImage
  split <;> exact ⟨rfl, rfl, rfl, rfl⟩

/-- The new table and the header leave the new data area alone. -/
theorem Resizable.resized_byte (valid : Resizable image)
    (fits : image.offStartBlocks + resizeBlocks image cbSize * 4 ≤ newDataStart image cbSize)
    {x : Nat} (high : newDataStart image cbSize ≤ x) :
    (resizedImage image cbSize geometry file).file.byte x = file.byte x := by
  have headerEnd := valid.layout.headerEnd
  rw [← resizedHeader_size (resizedDataOffset image cbSize) cbSize (resizeBlocks image cbSize)
    geometry] at headerEnd
  have table : (file.write image.offStartBlocks (resizeBlocks image cbSize * 4) (ofWords
      (resizeTable (rotateTable (getImageBlocksAllocated image.header) (movedSlots image cbSize)
        image.paBlocks) (resizeBlocks image cbSize)))).byte x = file.byte x :=
    ByteFile.byte_write_of_not_mem (by omega)
  unfold resizedImage vdiFlushImage
  split
  · exact table
  · refine Eq.trans ?_ table
    exact ByteFile.byte_write_of_not_mem (Or.inr (le_trans headerEnd (by omega)))

/-- Where the resized image has the data of a slot. -/
theorem resized_dataOffset (noWrap : newDataStart image cbSize + image.offStartBlockData +
      getImageBlockSize image.header ≤ 2 ^ 32) (q : Nat) {off : Nat}
    (inside : off < getImageBlockSize image.header) :
    dataOffset (resizedImage image cbSize geometry file) q off =
      newDataStart image cbSize + q * image.cbTotalBlockData + image.offStartBlockData + off := by
  obtain ⟨-, data, extra, total⟩ := @resizedImage_offsets image cbSize geometry file
  rw [dataOffset, data, extra, total, u32_of_lt (by omega)]
  omega

end Fields

theorem getElem?_resizeTable {table : List Nat} {m : Nat} (grows : table.length ≤ m) (i : Nat) :
    (resizeTable table m)[i]? = if i < table.length then table[i]?
      else if i < m then some vdiImageBlockFree else none := by
  rw [resizeTable, take_of_length_le grows]
  split
  · rename_i old
    exact getElem?_append_left old
  · rename_i new
    rw [getElem?_append_right (by omega), getElem?_replicate]
    split <;> split <;> first | rfl | omega

theorem length_resizeTable (table : List Nat) (m : Nat) : (resizeTable table m).length = m := by
  rw [resizeTable, length_append, length_take, length_replicate]
  omega

/-- The entries of the resized table. -/
theorem Resizable.resized_entry (valid : Resizable image)
    (grows : getImageBlocks image.header ≤ resizeBlocks image cbSize) (geometry : VdiDiskGeometry)
    (file : ByteFile) (i : Nat) : (resizedImage image cbSize geometry file).paBlocks[i]? =
      if i < getImageBlocks image.header then
        (image.paBlocks[i]?).map fun p => if IsAllocated p then
          rotated (getImageBlocksAllocated image.header) (movedSlots image cbSize) p else p
      else if i < resizeBlocks image cbSize then some vdiImageBlockFree else none := by
  have length : (rotateTable (getImageBlocksAllocated image.header) (movedSlots image cbSize)
      image.paBlocks).length = getImageBlocks image.header := by
    rw [rotateTable, length_map, valid.setUp.length_paBlocks]
  rw [resizedImage_paBlocks, getElem?_resizeTable (by rw [length]; exact grows), length,
    getElem?_rotateTable]

theorem Resizable.movedSlots_le (image : VdiImage) (cbSize : Nat) :
    movedSlots image cbSize ≤ getImageBlocksAllocated image.header := by
  unfold movedSlots
  split
  · exact (leadingSlots_spec _ _).1.trans (Nat.min_le_right _ _)
  · exact Nat.zero_le _

/-- A block keeps having a slot, with the rotated number. -/
theorem Resizable.resized_slot (valid : Resizable image)
    (grows : getImageBlocks image.header ≤ resizeBlocks image cbSize) (geometry : VdiDiskGeometry)
    (file : ByteFile) {i p : Nat} (slot : HasSlot image i p) :
    HasSlot (resizedImage image cbSize geometry file) i
      (rotated (getImageBlocksAllocated image.header) (movedSlots image cbSize) p) := by
  have block : i < getImageBlocks image.header := by
    rw [← valid.setUp.length_paBlocks]
    exact (List.getElem?_eq_some_iff.mp slot.1).choose
  constructor
  · rw [valid.resized_entry grows, if_pos block, slot.1, map_some, if_pos slot.2]
  · exact valid.isAllocated
      (rotated_lt (Resizable.movedSlots_le image cbSize) (valid.below i p slot))

/-! ### When a resize keeps the disk -/

/-- The new table and the first block of the new data area fit 32-bit offsets. -/
structure FitsOffsets (image : VdiImage) (cbSize : Nat) : Prop where
  table : image.offStartBlocks + (cbSize / getImageBlockSize image.header + 1) * 4 ≤ 2 ^ 32
  data : newDataStart image cbSize + image.offStartBlockData + getImageBlockSize image.header ≤
    2 ^ 32

theorem FitsOffsets.covers (fits32 : FitsOffsets image cbSize) (setUp : SetUp image) :
    resizeBlocks image cbSize < 2 ^ 32 ∧
      cbSize ≤ getImageBlockSize image.header * resizeBlocks image cbSize := by
  have table := fits32.table
  have split := Nat.div_add_mod cbSize (getImageBlockSize image.header)
  have rest := Nat.mod_lt cbSize setUp.blockSize_pos
  unfold resizeBlocks
  dsimp only
  split
  · rw [u32_of_lt (show cbSize / getImageBlockSize image.header < 2 ^ 32 by omega),
      u32_of_lt (by omega), Nat.mul_add]
    omega
  · rw [u32_of_lt (by omega)]
    omega

theorem Resizable.dataOffset_eq (valid : Resizable image) (p : Nat) {off : Nat}
    (inside : off < getImageBlockSize image.header) :
    dataOffset image p off = slotStart image p + image.offStartBlockData + off := by
  rw [valid.layout.dataOffset_eq p inside, slotStart]

/-- What the moved file has where a block was or went. -/
theorem Resizable.relocated_byte (valid : Resizable image) {r : Nat} {file : ByteFile}
    (relocated : Relocated image r file) {i p j : Nat} (slot : HasSlot image i p)
    (inside : j < image.cbTotalBlockData) :
    (p < r → file.byte (image.file.size + p * image.cbTotalBlockData + j) =
        image.file.byte (slotStart image p + j)) ∧
      (r ≤ p → file.byte (slotStart image p + j) = image.file.byte (slotStart image p + j)) := by
  have held := valid.slot_inside slot
  constructor
  · intro early
    have := slot_below image.cbTotalBlockData early
    rw [relocated.byte, if_pos (by omega)]
    congr 1
    unfold slotStart
    omega
  · intro late
    have := Nat.mul_le_mul_right image.cbTotalBlockData late
    rw [relocated.byte, if_neg (by omega), if_neg (by unfold slotStart; omega)]

theorem ResizesRight.keeps (right : ResizesRight image cbSize) (valid : Resizable image)
    (fits32 : FitsOffsets image cbSize) (geometry : VdiDiskGeometry)
    (larger : getImageDiskSize image.header < cbSize) (disk : cbSize < 2 ^ 64)
    (version : getMajorHeaderVersion image.header ≠ 0) {file : ByteFile}
    (relocated : Relocated image (movedSlots image cbSize) file) :
    KeepsBlocks image cbSize (resizedImage image cbSize geometry file) := by
  obtain ⟨grows, fits, moved, kept⟩ := right
  obtain ⟨blocks, data, extra, total⟩ := @resizedImage_offsets image cbSize geometry file
  obtain ⟨few, covers⟩ := fits32.covers valid.setUp
  have whole := valid.layout.cbTotalBlockData_eq valid.setUp
  constructor
  · intro i q _
    refine Or.inl ?_
    rw [blocks, slotStart, data]
    omega
  · intro i p slot
    refine ⟨_, valid.resized_slot grows geometry file slot, fun off inside => ?_⟩
    have bytes := valid.relocated_byte relocated slot
      (show image.offStartBlockData + off < image.cbTotalBlockData by omega)
    rw [resized_dataOffset geometry file fits32.data _ inside, valid.dataOffset_eq p inside,
      valid.resized_byte geometry file fits (by omega), rotated]
    split
    · rename_i early
      have place := moved i p slot early
      rw [← place, Nat.add_assoc _ image.offStartBlockData, Nat.add_assoc _ image.offStartBlockData]
      exact bytes.1 early
    · rename_i late
      have place := kept i p slot (by omega)
      rw [← place, Nat.add_assoc _ image.offStartBlockData]
      exact bytes.2 (by omega)
  · intro i p entry mark
    have block : i < getImageBlocks image.header := by
      rw [← valid.setUp.length_paBlocks]
      exact (List.getElem?_eq_some_iff.mp entry).choose
    rw [valid.resized_entry grows, if_pos block, entry, map_some, if_neg mark]
  · intro i old new
    rw [valid.resized_entry grows, if_neg (by omega), if_pos new]
  · rw [resizedImage_header, resizedHeader_valid_iff version valid.validated geometry disk
      (by omega) few grows covers, ← valid.setUp.offStartBlocks]
    exact fits

/-- A file with one byte that is not zero. -/
def markedFile (size x : Nat) (inside : x < size) : ByteFile where
  size := size
  byte j := if j = x then 1 else 0
  beyond j high := if_neg (by omega)

/-- A valid image stays valid with other contents. -/
theorem Resizable.withFile (valid : Resizable image) {file : ByteFile}
    (size : file.size = image.file.size) : Resizable { image with file := file } :=
  ⟨valid.setUp.updateTable rfl,
    valid.layout.sameShape ⟨rfl, rfl, rfl, rfl, rfl, rfl, rfl, Or.inl rfl⟩, valid.entries,
    valid.validated, valid.distinct, valid.below,
    fun i p slot => by rw [size]; exact valid.inFile i p slot⟩

/-- The data of a slot is found again only where the relocation put it. -/
theorem Resizable.place_of_marked (valid : Resizable image) {r : Nat} {file : ByteFile}
    {i p : Nat} (slot : HasSlot image i p) (marked : ∀ x, image.file.byte x =
      if x = slotStart image p + image.offStartBlockData then 1 else 0)
    (relocated : Relocated image r file) {x : Nat} (found : file.byte x = 1) :
    (p < r → x = image.file.size + p * image.cbTotalBlockData + image.offStartBlockData) ∧
      (r ≤ p → x = slotStart image p + image.offStartBlockData) := by
  have whole := valid.layout.cbTotalBlockData_eq valid.setUp
  have positive := valid.setUp.blockSize_pos
  rw [relocated.byte] at found
  simp only [marked] at found
  constructor
  · intro early
    have := slot_below image.cbTotalBlockData early
    unfold slotStart at *
    grind
  · intro late
    have := Nat.mul_le_mul_right image.cbTotalBlockData late
    unfold slotStart at *
    grind

/-- The data of slot `p` is where the resized image looks for it. -/
def PlacedRight (image : VdiImage) (cbSize p : Nat) : Prop :=
  (p < movedSlots image cbSize →
    newDataStart image cbSize + rotated (getImageBlocksAllocated image.header)
        (movedSlots image cbSize) p * image.cbTotalBlockData =
      image.file.size + p * image.cbTotalBlockData) ∧
  (movedSlots image cbSize ≤ p →
    newDataStart image cbSize + rotated (getImageBlocksAllocated image.header)
        (movedSlots image cbSize) p * image.cbTotalBlockData = slotStart image p)

/-- A block whose slot starts with the only byte of the disk shows where its data
must be. -/
theorem Resizable.placedRight (valid : Resizable image)
    (noWrap : newDataStart image cbSize + image.offStartBlockData +
      getImageBlockSize image.header ≤ 2 ^ 32) (geometry : VdiDiskGeometry)
    (grows : getImageBlocks image.header ≤ resizeBlocks image cbSize)
    (fits : image.offStartBlocks + resizeBlocks image cbSize * 4 ≤ newDataStart image cbSize)
    {file : ByteFile} (relocated : Relocated image (movedSlots image cbSize) file) {i p : Nat}
    (slot : HasSlot image i p) (marked : ∀ x, image.file.byte x =
      if x = slotStart image p + image.offStartBlockData then 1 else 0)
    (kept : KeepsBlocks image cbSize (resizedImage image cbSize geometry file)) :
    PlacedRight image cbSize p := by
  have positive := valid.setUp.blockSize_pos
  obtain ⟨q, slot', same⟩ := kept.reads i p slot
  have named := (valid.resized_slot grows geometry file slot).1
  rw [slot'.1] at named
  have number : q = rotated (getImageBlocksAllocated image.header) (movedSlots image cbSize) p :=
    some.inj named
  have byte := same 0 positive
  rw [resized_dataOffset geometry file noWrap _ positive,
    valid.resized_byte geometry file fits (by omega), valid.dataOffset_eq p positive,
    Nat.add_zero, Nat.add_zero, marked, if_pos rfl, number] at byte
  obtain ⟨appended, stayed⟩ := valid.place_of_marked slot marked relocated byte
  exact ⟨fun early => Nat.add_right_cancel (appended early),
    fun late => Nat.add_right_cancel (stayed late)⟩

/-- A resize that keeps every disk with this block table is right. -/
theorem Resizable.resizesRight (valid : Resizable image) (fits32 : FitsOffsets image cbSize)
    (geometry : VdiDiskGeometry) (larger : getImageDiskSize image.header < cbSize)
    (disk : cbSize < 2 ^ 64) (version : getMajorHeaderVersion image.header ≠ 0)
    (dynamic : hasFlag image.uImageFlags vdImageFlagsFixed = false)
    (keeps : ∀ file rc image', file.size = image.file.size →
      vdiResize { image with file := file } cbSize geometry = (rc, image') → rc = .vinfSuccess →
        KeepsBlocks { image with file := file } cbSize image') : ResizesRight image cbSize := by
  obtain ⟨few, covers⟩ := fits32.covers valid.setUp
  obtain ⟨moved, run, -⟩ := valid.resize geometry larger version dynamic
  have kept := keeps image.file _ _ rfl run rfl
  have grows : getImageBlocks image.header ≤ resizeBlocks image cbSize := by
    -- a lost entry keeps neither its slot nor its mark
    by_contra shrinks
    have inside : resizeBlocks image cbSize < image.paBlocks.length := by
      rw [valid.setUp.length_paBlocks]
      omega
    have entry : image.paBlocks[resizeBlocks image cbSize]? =
        some image.paBlocks[resizeBlocks image cbSize] := getElem?_eq_getElem inside
    have lost : (resizedImage image cbSize geometry moved).paBlocks[resizeBlocks image cbSize]? =
        none := by
      rw [resizedImage_paBlocks]
      exact getElem?_eq_none (length_resizeTable _ _).le
    by_cases allocated : IsAllocated image.paBlocks[resizeBlocks image cbSize]
    · obtain ⟨q, slot, -⟩ := kept.reads _ _ ⟨entry, allocated⟩
      have found := slot.1
      rw [lost] at found
      cases found
    · have found := kept.marks _ _ entry allocated
      rw [lost] at found
      cases found
  have fits : image.offStartBlocks + resizeBlocks image cbSize * 4 ≤ newDataStart image cbSize := by
    have validated := kept.validated
    rw [resizedImage_header, resizedHeader_valid_iff version valid.validated geometry disk
      (by omega) few grows covers, ← valid.setUp.offStartBlocks] at validated
    exact validated
  have place : ∀ {i p}, HasSlot image i p → PlacedRight image cbSize p := by
    intro i p slot
    have held := valid.slot_inside slot
    have whole := valid.layout.cbTotalBlockData_eq valid.setUp
    have positive := valid.setUp.blockSize_pos
    let file := markedFile image.file.size (slotStart image p + image.offStartBlockData) (by omega)
    have valid' : Resizable { image with file := file } := valid.withFile rfl
    obtain ⟨after, run', relocated⟩ := valid'.resize geometry larger version dynamic
    exact valid'.placedRight fits32.data geometry grows fits relocated slot (fun _ => rfl)
      (keeps file _ _ rfl run' rfl)
  refine ⟨grows, fits, fun i p slot early => ?_, fun i p slot late => ?_⟩
  · have here := (place slot).1 early
    rw [rotated, if_pos early] at here
    exact here.symm
  · have here := (place slot).2 late
    rw [rotated, if_neg (by omega)] at here
    exact here.symm

end Resizes

/-! ### An image with one block

Its data area starts at 1024 and its only block has slot 0, behind which the
file ends. The new data area would have to start at 1 MB, so that every resize
relocates the block. -/

def oneBlockImage : VdiImage := openedImage (oneBlockFile 1) {}

theorem oneBlockImage_opened : Opened (oneBlockFile 1) {} oneBlockImage :=
  vdiOpenImage_opened (openedImage_eq (by decide +kernel))

theorem oneBlockImage_slot {i p : Nat} (slot : HasSlot oneBlockImage i p) : i = 0 ∧ p = 0 := by
  have table : oneBlockImage.paBlocks = [0, vdiImageBlockFree] := by decide +kernel
  obtain ⟨entry, inUse⟩ := slot
  rw [table] at entry
  match i, entry with
  | 0, entry =>
    cases entry
    exact ⟨rfl, rfl⟩
  | 1, entry =>
    cases entry
    exact absurd inUse not_isAllocated_free

theorem oneBlockImage_resizable : Resizable oneBlockImage := by
  refine ⟨oneBlockImage_opened.setUp, ⟨by decide +kernel, by decide +kernel, by decide +kernel⟩,
    oneBlockImage_opened.entries, oneBlockImage_opened.validated, fun i j p left right => ?_,
    fun i p slot => ?_, fun i p slot => ?_⟩
  · rw [(oneBlockImage_slot left).1, (oneBlockImage_slot right).1]
  · rw [(oneBlockImage_slot slot).2]
    decide +kernel
  · rw [(oneBlockImage_slot slot).2]
    decide +kernel

/-- Growing to four blocks moves the block behind the old end of the file. -/
example : content oneBlockImage 0 = some 1 := by decide +kernel

theorem oneBlockImage_resizesRight : ResizesRight oneBlockImage 2048 := by
  refine ⟨by decide +kernel, by decide +kernel, fun i p slot _ => ?_, fun i p slot late => ?_⟩
  · rw [(oneBlockImage_slot slot).2]
    decide +kernel
  · rw [(oneBlockImage_slot slot).2] at late
    exact absurd late (by decide +kernel)

end VBox.Storage.Vdi
