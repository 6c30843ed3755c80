import VBox.Storage.Vdi.TableInvariant

/-!
Where the parts of an image lie in its file.

`Layout` says that header, block table and data area follow each other without
overlap and that no 32-bit sum of offsets wraps. `StoreInv` adds that the file
holds every slot in use: the state in which reads and writes of different
blocks and of the metadata cannot touch each other. `Dense` is the stronger
state in which the slots below `cBlocksAllocated` are all in use; it makes every
request inside the disk sound. Writes and discards keep all three.
-/

namespace VBox.Storage.Vdi

open VBox.Lib

/-! ### What writes and discards leave alone -/

/-- The two descriptors agree on everything but the block table, the count of
allocated blocks, the image size and the file. -/
structure SameShape (image image' : VdiImage) : Prop where
  uOpenFlags : image'.uOpenFlags = image.uOpenFlags
  offStartBlocks : image'.offStartBlocks = image.offStartBlocks
  offStartData : image'.offStartData = image.offStartData
  uBlockMask : image'.uBlockMask = image.uBlockMask
  uShiftOffset2Index : image'.uShiftOffset2Index = image.uShiftOffset2Index
  offStartBlockData : image'.offStartBlockData = image.offStartBlockData
  cbTotalBlockData : image'.cbTotalBlockData = image.cbTotalBlockData
  header : image'.header = image.header ∨
    ∃ n, image'.header = setImageBlocksAllocated n image.header

theorem headerBytes_size (header : VdiHeader) (n : Nat) :
    (headerBytes (setImageBlocksAllocated n header)).1 = (headerBytes header).1 := by
  cases header with
  | v0 h => rfl
  | v1 minor h g =>
    simp only [setImageBlocksAllocated, headerBytes]
    split <;> rfl

namespace SameShape

variable {image image' : VdiImage}

section

variable (same : SameShape image image')

include same

theorem blocks : getImageBlocks image'.header = getImageBlocks image.header := by
  rcases same.header with header | ⟨n, header⟩
  · rw [header]
  · rw [header, (setImageBlocksAllocated_frame _ n).1]

theorem blockSize : getImageBlockSize image'.header = getImageBlockSize image.header := by
  rcases same.header with header | ⟨n, header⟩
  · rw [header]
  · rw [header, (setImageBlocksAllocated_frame _ n).2.1]

theorem diskSize : getImageDiskSize image'.header = getImageDiskSize image.header := by
  rcases same.header with header | ⟨n, header⟩
  · rw [header]
  · rw [header, (setImageBlocksAllocated_frame _ n).2.2.2.1]

theorem headerSize : (headerBytes image'.header).1 = (headerBytes image.header).1 := by
  rcases same.header with header | ⟨n, header⟩
  · rw [header]
  · rw [header, headerBytes_size]

theorem slotEnd_eq (p : Nat) : slotEnd image' p = slotEnd image p := by
  simp only [slotEnd, same.cbTotalBlockData, same.offStartData, same.offStartBlockData,
    same.blockSize]

end

end SameShape

variable {uOffset cb uBlock ptrBlock : Nat} {data : Buf} {fNoAlloc fMarkUnused : Bool}

section Shapes

variable {image image' : VdiImage}

theorem WriteStep.sameShape (step : WriteStep image uOffset cb data fNoAlloc image') :
    SameShape image image' := by
  cases step with
  | elided => exact ⟨rfl, rfl, rfl, rfl, rfl, rfl, rfl, Or.inl rfl⟩
  | inPlace => exact ⟨rfl, rfl, rfl, rfl, rfl, rfl, rfl, Or.inl rfl⟩
  | allocated entry _ _ _ _ update =>
    obtain ⟨inside, -⟩ := List.getElem?_eq_some_iff.mp entry
    obtain ⟨-, rfl⟩ := vdiBlockAllocUpdate_eq update inside
    exact ⟨rfl, rfl, rfl, rfl, rfl, rfl, rfl, Or.inr ⟨_, rfl⟩⟩

theorem RemoveStep.sameShape (step : RemoveStep image uBlock ptrBlock image') :
    SameShape image image' := by
  cases step <;> exact ⟨rfl, rfl, rfl, rfl, rfl, rfl, rfl, Or.inr ⟨_, rfl⟩⟩

theorem DiscardStep.sameShape (step : DiscardStep image uOffset cb fMarkUnused image') :
    SameShape image image' := by
  cases step with
  | unallocated => exact ⟨rfl, rfl, rfl, rfl, rfl, rfl, rfl, Or.inl rfl⟩
  | zeroed => exact ⟨rfl, rfl, rfl, rfl, rfl, rfl, rfl, Or.inl rfl⟩
  | whole _ _ _ remove => exact remove.sameShape
  | emptied _ _ _ _ _ _ remove => exact remove.sameShape

end Shapes

/-! ### The layout of the file -/

/-- Header, block table and data area are disjoint and no offset wraps. -/
structure Layout (image : VdiImage) : Prop where
  headerEnd : sizeofPreHeader + (headerBytes image.header).1 ≤ image.offStartBlocks
  tableEnd : image.offStartBlocks + getImageBlocks image.header * 4 ≤ image.offStartData
  noWrap : image.offStartData + image.offStartBlockData + getImageBlockSize image.header ≤ 2 ^ 32

/-- The block table is right, its entries are 32-bit values, the parts of the file
do not overlap, and the file holds every slot in use. -/
structure StoreInv (image : VdiImage) : Prop where
  table : TableInv image
  layout : Layout image
  entries : ∀ p ∈ image.paBlocks, p < 2 ^ 32
  inFile : ∀ i p, HasSlot image i p → slotEnd image p ≤ image.file.size

/-- The slots below `cBlocksAllocated` are all in use, and the image is at least
as long as they are. -/
structure Dense (image : VdiImage) : Prop where
  packed : Packed IsAllocated image.paBlocks (getImageBlocksAllocated image.header)
  reach : image.offStartData + getImageBlocksAllocated image.header * image.cbTotalBlockData ≤
    image.cbImage

/-- Slots do not overlap. -/
theorem slot_below (cbTotal : Nat) {p q : Nat} (less : p < q) :
    p * cbTotal + cbTotal ≤ q * cbTotal := by
  have := Nat.mul_le_mul_right cbTotal (Nat.succ_le_of_lt less)
  rwa [Nat.succ_mul] at this

section Addresses

variable {image : VdiImage}

theorem Layout.sameShape {image' : VdiImage} (layout : Layout image)
    (same : SameShape image image') : Layout image' := by
  obtain ⟨headerEnd, tableEnd, noWrap⟩ := layout
  constructor
  · rw [same.headerSize, same.offStartBlocks]
    exact headerEnd
  · rw [same.offStartBlocks, same.blocks, same.offStartData]
    exact tableEnd
  · rw [same.offStartData, same.offStartBlockData, same.blockSize]
    exact noWrap

/-- The data area starts behind the pre-header. -/
theorem Layout.offStartData_pos (layout : Layout image) : 72 ≤ image.offStartData := by
  have := layout.headerEnd
  have := layout.tableEnd
  rw [sizeofPreHeader_eq] at *
  omega

/-- A slot holds the extra data and the data of one block. -/
theorem Layout.cbTotalBlockData_eq (layout : Layout image) (setUp : SetUp image) :
    image.cbTotalBlockData = image.offStartBlockData + getImageBlockSize image.header := by
  have noWrap := layout.noWrap
  have positive := layout.offStartData_pos
  rw [setUp.cbTotalBlockData, ← setUp.offStartBlockData]
  exact u32_of_lt (by omega)

theorem StoreInv.total (inv : StoreInv image) :
    image.cbTotalBlockData = image.offStartBlockData + getImageBlockSize image.header :=
  inv.layout.cbTotalBlockData_eq inv.table.setUp

/-- Without wrapping, the data of a slot lies behind its extra data. -/
theorem Layout.dataOffset_eq (layout : Layout image) (p : Nat) {off : Nat}
    (inside : off < getImageBlockSize image.header) : dataOffset image p off =
      image.offStartData + p * image.cbTotalBlockData + image.offStartBlockData + off := by
  have noWrap := layout.noWrap
  have small : u32 (image.offStartData + image.offStartBlockData + off) =
      image.offStartData + image.offStartBlockData + off := u32_of_lt (by omega)
  rw [dataOffset, small]
  omega

/-- A slot ends where the next one starts. -/
theorem StoreInv.slotEnd_eq (inv : StoreInv image) (p : Nat) : slotEnd image p =
      image.offStartData + p * image.cbTotalBlockData + image.cbTotalBlockData := by
  rw [slotEnd, inv.total]
  omega

/-- An image whose data area lies behind its table has fewer than 2^30 blocks,
so that every slot number differs from the marks. -/
theorem Layout.isAllocated (layout : Layout image) {p : Nat}
    (below : p ≤ getImageBlocks image.header) : IsAllocated p := by
  have tableEnd := layout.tableEnd
  have noWrap := layout.noWrap
  unfold IsAllocated vdiImageBlockZero
  omega

end Addresses

/-! ### Writes and discards keep the slots in the file -/

section Steps

variable {image image' : VdiImage}

/-- The size of the image covers the next slot as well, once it has grown. -/
theorem Dense.reach_next (dense : Dense image) (inv : StoreInv image) :
    slotEnd image (getImageBlocksAllocated image.header) ≤
      image.cbImage + image.cbTotalBlockData := by
  rw [inv.slotEnd_eq]
  exact Nat.add_le_add_right dense.reach _

/-- Updating an entry with a 32-bit value keeps the table one of 32-bit values. -/
theorem entries_set {table : List Nat} (entries : ∀ p ∈ table, p < 2 ^ 32) (i : Nat) {ptr : Nat}
    (small : ptr < 2 ^ 32) : ∀ p ∈ table.set i ptr, p < 2 ^ 32 := by
  intro p member
  rcases List.mem_or_eq_of_mem_set member with old | rfl
  · exact entries p old
  · exact small

theorem zero_small : vdiImageBlockZero < 2 ^ 32 := by decide

theorem IsAllocated.small {p : Nat} (inUse : IsAllocated p) : p < 2 ^ 32 :=
  lt_trans inUse zero_small

theorem WriteStep.entries (step : WriteStep image uOffset cb data fNoAlloc image')
    (before : ∀ p ∈ image.paBlocks, p < 2 ^ 32) : ∀ p ∈ image'.paBlocks, p < 2 ^ 32 := by
  cases step with
  | elided => exact entries_set before _ zero_small
  | inPlace => exact before
  | allocated entry _ _ _ _ update =>
    obtain ⟨inside, -⟩ := List.getElem?_eq_some_iff.mp entry
    obtain ⟨-, rfl⟩ := vdiBlockAllocUpdate_eq update inside
    exact entries_set before _ (getImageBlocksAllocated_lt image.header)

theorem RemoveStep.entries (inUse : IsAllocated ptrBlock)
    (step : RemoveStep image uBlock ptrBlock image') (before : ∀ p ∈ image.paBlocks, p < 2 ^ 32) :
    ∀ p ∈ image'.paBlocks, p < 2 ^ 32 := by
  cases step with
  | last => exact entries_set before _ zero_small
  | moved => exact entries_set (entries_set before _ zero_small) _ inUse.small

theorem DiscardStep.entries (step : DiscardStep image uOffset cb fMarkUnused image')
    (before : ∀ p ∈ image.paBlocks, p < 2 ^ 32) : ∀ p ∈ image'.paBlocks, p < 2 ^ 32 := by
  cases step with
  | unallocated => exact before
  | zeroed => exact before
  | whole entry inUse _ remove => exact remove.entries inUse before
  | emptied entry inUse _ _ _ _ remove => exact remove.entries inUse before

section

variable (inv : StoreInv image) {uOffset cb : Nat}

include inv

/-- Every slot in use stays in the file when one more block is written. -/
theorem StoreInv.write_inFile {data : Buf} {fNoAlloc : Bool}
    (step : WriteStep image uOffset cb data fNoAlloc image') :
    ∀ i p, HasSlot image' i p → slotEnd image' p ≤ image'.file.size := by
  intro i p slot
  rw [step.sameShape.slotEnd_eq]
  cases step with
  | elided entry unallocated elides =>
    obtain ⟨found, inUse⟩ := slot
    rw [List.getElem?_set] at found
    split at found
    · split at found
      · cases found
        exact absurd inUse not_isAllocated_zero
      · cases found
    · exact inv.inFile i p ⟨found, inUse⟩
  | inPlace entry inUse =>
    exact (inv.inFile i p slot).trans (ByteFile.size_le_write _ _ _ _)
  | allocated entry unallocated keeps whole allowed update =>
    obtain ⟨inside, -⟩ := List.getElem?_eq_some_iff.mp entry
    obtain ⟨-, rfl⟩ := vdiBlockAllocUpdate_eq update inside
    obtain ⟨found, inUse⟩ := slot
    -- the file only grows, and it holds the data just written
    have grown : (writeSlot image (getImageBlocksAllocated image.header) 0
        (clipToBlock image uOffset cb) data).file.size ≤
        (allocFile (writeSlot image (getImageBlocksAllocated image.header) 0
          (clipToBlock image uOffset cb) data) (getImageBlocksAllocated image.header)
          (blockIndex image uOffset)).size :=
      (ByteFile.size_le_write _ _ _ _).trans (ByteFile.size_le_write _ _ _ _)
    refine le_trans ?_ grown
    simp only [allocDesc, writeSlot] at found ⊢
    by_cases here : blockIndex image uOffset = i
    · rw [← here, List.getElem?_set_self inside] at found
      cases found
      have positive := inv.table.setUp.blockSize_pos
      have placed := inv.layout.dataOffset_eq (getImageBlocksAllocated image.header) positive
      have written := ByteFile.end_le_write image.file
        (dataOffset image (getImageBlocksAllocated image.header) 0)
        (clipToBlock image uOffset cb) data (by omega)
      rw [slotEnd]
      omega
    · rw [List.getElem?_set_ne here] at found
      exact (inv.inFile i p ⟨found, inUse⟩).trans (ByteFile.size_le_write _ _ _ _)

theorem StoreInv.write {data : Buf} {fNoAlloc : Bool} (writable : image.uOpenFlags.readOnly = false)
    (sound : Sound image (.write uOffset cb data fNoAlloc))
    (step : WriteStep image uOffset cb data fNoAlloc image') : StoreInv image' :=
  ⟨inv.table.write writable sound step, inv.layout.sameShape step.sameShape,
    step.entries inv.entries, inv.write_inFile step⟩

theorem StoreInv.discard {fMarkUnused : Bool}
    (sound : Sound image (.discard uOffset cb fMarkUnused))
    (step : DiscardStep image uOffset cb fMarkUnused image') : StoreInv image' := by
  refine ⟨(inv.table.discard sound step).1, inv.layout.sameShape step.sameShape,
    step.entries inv.entries, ?_⟩
  cases step with
  | unallocated => exact inv.inFile
  | zeroed =>
    intro i p slot
    exact (inv.inFile i p slot).trans (ByteFile.size_le_write _ _ _ _)
  | whole entry inUse full remove =>
    have gone := sound.2.1 ⟨_, ⟨entry, inUse⟩, Or.inl full⟩
    obtain ⟨kept, size⟩ := inv.table.remove ⟨entry, inUse⟩ gone remove
    rw [size]
    exact kept.covered
  | emptied entry inUse unmarked _ _ empty remove =>
    have gone := sound.2.1 ⟨_, ⟨entry, inUse⟩, Or.inr ⟨unmarked, empty⟩⟩
    obtain ⟨kept, size⟩ := inv.table.remove ⟨entry, inUse⟩ gone remove
    rw [size]
    exact kept.covered

end

/-! ### Dense images -/

section

variable (dense : Dense image) (inv : StoreInv image)

include dense inv

theorem Dense.write {uOffset cb : Nat} {data : Buf} {fNoAlloc : Bool}
    (step : WriteStep image uOffset cb data fNoAlloc image') : Dense image' := by
  cases step with
  | elided entry unallocated elides => exact ⟨dense.packed.setMark entry unallocated, dense.reach⟩
  | inPlace entry inUse => exact ⟨dense.packed, dense.reach⟩
  | allocated entry unallocated keeps whole allowed update =>
    obtain ⟨inside, -⟩ := List.getElem?_eq_some_iff.mp entry
    obtain ⟨-, rfl⟩ := vdiBlockAllocUpdate_eq update inside
    have room := dense.packed.room entry unallocated
    rw [inv.table.setUp.length_paBlocks] at room
    have count : getImageBlocksAllocated (setImageBlocksAllocated
        (getImageBlocksAllocated image.header + 1) image.header) =
          getImageBlocksAllocated image.header + 1 :=
      getImageBlocksAllocated_set image.header
        (lt_of_le_of_lt (Nat.succ_le_of_lt room) (getImageBlocks_lt _))
    have slot := inv.layout.isAllocated room.le
    constructor
    · simp only [allocDesc, writeSlot, count]
      exact dense.packed.allocate entry unallocated slot
    · have reach := dense.reach
      simp only [allocDesc, writeSlot, count, Nat.add_mul]
      omega

theorem Dense.remove {uBlock ptrBlock : Nat} (slot : HasSlot image uBlock ptrBlock)
    (step : RemoveStep image uBlock ptrBlock image') : Dense image' := by
  have small := inv.table.slot_lt slot
  obtain ⟨n, count⟩ : ∃ n, getImageBlocksAllocated image.header = n + 1 :=
    ⟨getImageBlocksAllocated image.header - 1, by omega⟩
  have lastIndex : idxLastBlock image = n := by
    rw [idxLastBlock, count, if_neg (Nat.succ_ne_zero n), Nat.add_sub_cancel]
  have packed := dense.packed
  have reach := dense.reach
  rw [count] at packed
  rw [count, Nat.add_mul] at reach
  have fits : n < 2 ^ 32 := by
    have := getImageBlocksAllocated_lt image.header
    omega
  have newCount := getImageBlocksAllocated_set image.header fits
  have shrink : u64Sub image.cbImage image.cbTotalBlockData =
      image.cbImage - image.cbTotalBlockData := u64Sub_of_le (by omega)
  cases step with
  | last reverse index back =>
    rw [lastIndex] at index
    subst index
    constructor
    · simp only [dropDesc, newCount]
      exact packed.dropLast slot.1
    · simp only [dropDesc, newCount, shrink]
      omega
  | moved reverse index back different room insideLast room' saved =>
    rw [lastIndex] at index
    subst index
    obtain ⟨rev, tracks, -, indexes⟩ := inv.table.reverse
    cases tracks _ reverse
    obtain ⟨lastBlock, lastEntry, lastUsed⟩ := packed _ (Nat.lt_succ_self _)
    have named := indexes.back _ _ lastEntry lastUsed
    rw [back] at named
    cases named
    constructor
    · simp only [moveDesc, newCount]
      exact packed.swapRemove slot.1 slot.2 lastEntry (Ne.symm different)
    · simp only [moveDesc, newCount, shrink]
      omega

theorem Dense.discard {uOffset cb : Nat} {fMarkUnused : Bool}
    (step : DiscardStep image uOffset cb fMarkUnused image') : Dense image' := by
  cases step with
  | unallocated => exact dense
  | zeroed => exact ⟨dense.packed, dense.reach⟩
  | whole entry inUse full remove => exact dense.remove inv ⟨entry, inUse⟩ remove
  | emptied entry inUse _ _ _ _ remove => exact dense.remove inv ⟨entry, inUse⟩ remove

/-- On a dense image every write inside the disk is sound. -/
theorem Dense.sound_write {uOffset cb : Nat} (inside : uOffset + cb ≤ getImageDiskSize image.header)
    (data : Buf) (fNoAlloc : Bool) : Sound image (.write uOffset cb data fNoAlloc) := by
  refine ⟨inside, ?_⟩
  rintro ⟨-, -, -, ptrBlock, entry, unallocated, -⟩
  have room := dense.packed.room entry unallocated
  rw [inv.table.setUp.length_paBlocks] at room
  exact ⟨room, inv.layout.isAllocated room.le, dense.reach_next inv⟩

/-- A dense image with a slot to give up has its last slot in use. -/
theorem Dense.last_used {uOffset cb : Nat} {fMarkUnused : Bool}
    (gives : GivesSlot image uOffset cb fMarkUnused) :
    ∃ i, HasSlot image i (getImageBlocksAllocated image.header - 1) := by
  obtain ⟨p, slot, -⟩ := gives
  have below := inv.table.slot_lt slot
  exact dense.packed _ (by omega)

/-- On a dense image without extra data whose blocks have a multiple of eight
sectors, so is every discard. -/
theorem Dense.sound_discard {uOffset cb : Nat}
    (inside : uOffset + cb ≤ getImageDiskSize image.header) (noExtra : image.offStartBlockData = 0)
    (sectors : getImageBlockSize image.header / 512 % 8 = 0) (fMarkUnused : Bool) :
    Sound image (.discard uOffset cb fMarkUnused) := by
  exact ⟨inside, dense.last_used inv, fun _ => ⟨noExtra, sectors⟩⟩

end

end Steps

end VBox.Storage.Vdi
