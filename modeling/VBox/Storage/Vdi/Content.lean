import VBox.Storage.Vdi.Layout

/-!
What an image shows at each virtual offset.

`content` is the abstract view of an image: a byte, or nothing where the block
is FREE and the parent answers. `WriteStep.content` and `DiscardStep.content`
say what the operations do to it, `vdiRead_content` that `vdiRead` reports it.
-/

namespace VBox.Storage.Vdi

open VBox.Lib List

/-- Where the file keeps byte `off` of the block in slot `p`. -/
def slotByte (image : VdiImage) (p off : Nat) : Nat :=
  image.offStartData + p * image.cbTotalBlockData + image.offStartBlockData + off

/-- What a block pointer shows at offset `off` of its block. -/
def pointerContent (image : VdiImage) (ptrBlock off : Nat) : Option UInt8 :=
  if ptrBlock = vdiImageBlockFree then none
  else if ptrBlock = vdiImageBlockZero then some 0
  else some (image.file.byte (slotByte image ptrBlock off))

/-- The byte an image shows at a virtual offset; nothing in a FREE block. -/
def content (image : VdiImage) (o : Nat) : Option UInt8 :=
  (image.paBlocks[o / getImageBlockSize image.header]?).bind fun ptrBlock =>
    pointerContent image ptrBlock (o % getImageBlockSize image.header)

section Pointers

variable {image : VdiImage}

theorem content_of_entry {o ptrBlock : Nat}
    (entry : image.paBlocks[o / getImageBlockSize image.header]? = some ptrBlock) :
    content image o = pointerContent image ptrBlock (o % getImageBlockSize image.header) := by
  rw [content, entry, Option.bind_some]

@[simp] theorem pointerContent_zero (off : Nat) :
    pointerContent image vdiImageBlockZero off = some 0 := by
  rw [pointerContent, if_neg (by decide), if_pos rfl]

theorem pointerContent_slot {p : Nat} (inUse : IsAllocated p) (off : Nat) :
    pointerContent image p off = some (image.file.byte (slotByte image p off)) := by
  have notFree : p ≠ vdiImageBlockFree := by
    rintro rfl
    exact not_isAllocated_free inUse
  have notZero : p ≠ vdiImageBlockZero := by
    rintro rfl
    exact not_isAllocated_zero inUse
  rw [pointerContent, if_neg notFree, if_neg notZero]

/-- The clipped range of a request lies in one block. -/
theorem SetUp.range_div (setUp : SetUp image) {uOffset cb o : Nat} (low : uOffset ≤ o)
    (high : o < uOffset + clipToBlock image uOffset cb) :
    o / getImageBlockSize image.header = uOffset / getImageBlockSize image.header ∧
      o % getImageBlockSize image.header = blockOffset image uOffset + (o - uOffset) := by
  have positive := setUp.blockSize_pos
  have clip := setUp.clip_le uOffset cb
  have offset := setUp.blockOffset_eq uOffset
  have split := Nat.div_add_mod uOffset (getImageBlockSize image.header)
  have total : o = blockOffset image uOffset + (o - uOffset) +
      getImageBlockSize image.header * (uOffset / getImageBlockSize image.header) := by
    omega
  have inside : blockOffset image uOffset + (o - uOffset) < getImageBlockSize image.header := by
    omega
  constructor
  · rw [total, Nat.add_mul_div_left _ _ positive, Nat.div_eq_of_lt inside]
    omega
  · conv_lhs => rw [total, Nat.add_mul_mod_self_left]
    exact Nat.mod_eq_of_lt inside

/-- A byte of the block of a request lies in its clipped range when its offset
in the block does. -/
theorem SetUp.mem_range (setUp : SetUp image) {uOffset cb o : Nat}
    (block : o / getImageBlockSize image.header = uOffset / getImageBlockSize image.header) :
    (uOffset ≤ o ∧ o < uOffset + clipToBlock image uOffset cb) ↔
      (blockOffset image uOffset ≤ o % getImageBlockSize image.header ∧
        o % getImageBlockSize image.header <
          blockOffset image uOffset + clipToBlock image uOffset cb) := by
  have offset := setUp.blockOffset_eq uOffset
  have split := Nat.div_add_mod uOffset (getImageBlockSize image.header)
  have split' := Nat.div_add_mod o (getImageBlockSize image.header)
  rw [block] at split'
  omega

/-- The bytes of a slot lie outside every other slot. -/
theorem slotByte_outside
    (total : image.cbTotalBlockData = image.offStartBlockData + getImageBlockSize image.header)
    {p q off : Nat} (apart : p ≠ q) (inside : off < getImageBlockSize image.header) :
    slotByte image p off < image.offStartData + q * image.cbTotalBlockData ∨
      image.offStartData + q * image.cbTotalBlockData + image.cbTotalBlockData ≤
        slotByte image p off := by
  unfold slotByte
  rcases Nat.lt_or_gt_of_ne apart with less | less
  · have := slot_below image.cbTotalBlockData less
    exact Or.inl (by omega)
  · have := slot_below image.cbTotalBlockData less
    exact Or.inr (by omega)

/-- The bytes of a slot lie in the data area. -/
theorem le_slotByte (image : VdiImage) (p off : Nat) :
    image.offStartData ≤ slotByte image p off := by
  unfold slotByte
  omega

theorem slotByte_lt_slotEnd (image : VdiImage) (p : Nat) {off : Nat}
    (inside : off < getImageBlockSize image.header) : slotByte image p off < slotEnd image p := by
  unfold slotByte slotEnd
  omega

theorem SameShape.slotByte_eq {image' : VdiImage} (same : SameShape image image') (p off : Nat) :
    slotByte image' p off = slotByte image p off := by
  simp only [slotByte, same.offStartData, same.cbTotalBlockData, same.offStartBlockData]

/-- A byte whose block keeps its entry and whose place in the file keeps its
value shows the same. -/
theorem content_frame {image' : VdiImage} (entries : ∀ p ∈ image.paBlocks, p < 2 ^ 32)
    (same : SameShape image image') {o : Nat}
    (entry : image'.paBlocks[o / getImageBlockSize image.header]? =
      image.paBlocks[o / getImageBlockSize image.header]?)
    (bytes : ∀ p, HasSlot image (o / getImageBlockSize image.header) p →
      image'.file.byte (slotByte image p (o % getImageBlockSize image.header)) =
        image.file.byte (slotByte image p (o % getImageBlockSize image.header))) :
    content image' o = content image o := by
  rw [content, content, same.blockSize, entry]
  cases found : image.paBlocks[o / getImageBlockSize image.header]? with
  | none => rfl
  | some p =>
    rw [Option.bind_some, Option.bind_some]
    rcases blockPointer_cases (entries p (mem_of_getElem? found)) with rfl | rfl | inUse
    · rfl
    · rw [pointerContent_zero, pointerContent_zero]
    · rw [pointerContent_slot inUse, pointerContent_slot inUse, same.slotByte_eq,
        bytes p ⟨found, inUse⟩]

/-! Metadata lies below the data area. -/

theorem Layout.header_below (layout : Layout image) :
    sizeofPreHeader + (headerBytes image.header).1 ≤ image.offStartData := by
  have := layout.headerEnd
  have := layout.tableEnd
  omega

theorem Layout.entry_below (layout : Layout image) {i : Nat}
    (inside : i < getImageBlocks image.header) :
    image.offStartBlocks + i * 4 + 4 ≤ image.offStartData := by
  have := layout.tableEnd
  omega

end Pointers

/-! ### Reading -/

/-- A read inside the disk reports the content of its clipped range. -/
theorem StoreInv.vdiRead_content {image : VdiImage} (inv : StoreInv image) {uOffset cb : Nat}
    (positive : 0 < cb) (inside : uOffset + cb ≤ getImageDiskSize image.header) :
    ∃ result, vdiRead image uOffset cb = some result ∧
      result.pcbActuallyRead = some (clipToBlock image uOffset cb) ∧
      ((result.rc = .verrVdBlockFree ∧
          ∀ o, uOffset ≤ o → o < uOffset + clipToBlock image uOffset cb → content image o = none) ∨
        result.rc = .vinfSuccess ∧ ∃ data, result.data = some data ∧
          ∀ o, uOffset ≤ o → o < uOffset + clipToBlock image uOffset cb →
            content image o = some (data (o - uOffset))) := by
  have setUp := inv.table.setUp
  obtain ⟨ptrBlock, entry, run⟩ := vdiRead_cases setUp positive inside
  refine ⟨_, run, ?_⟩
  have index := setUp.blockIndex_eq (show uOffset < getImageDiskSize image.header by omega)
  have clip := setUp.clip_le uOffset cb
  -- every byte of the range shows what the entry of its block says
  have shows : ∀ o, uOffset ≤ o → o < uOffset + clipToBlock image uOffset cb →
      content image o = pointerContent image ptrBlock (blockOffset image uOffset + (o - uOffset)) := by
    intro o low high
    obtain ⟨block, offset⟩ := setUp.range_div low high
    rw [content_of_entry (by rw [block, ← index]; exact entry), offset]
  dsimp only
  split
  · rename_i free
    refine ⟨rfl, Or.inl ⟨rfl, fun o low high => ?_⟩⟩
    rw [shows o low high, pointerContent, if_pos free]
  rename_i notFree
  split
  · rename_i zero
    refine ⟨rfl, Or.inr ⟨rfl, _, rfl, fun o low high => ?_⟩⟩
    rw [shows o low high, zero, pointerContent_zero]
  rename_i notZero
  by_cases allocated : IsAllocated ptrBlock
  · have slot : HasSlot image (blockIndex image uOffset) ptrBlock := ⟨entry, allocated⟩
    have placed := inv.layout.dataOffset_eq ptrBlock (setUp.blockOffset_lt uOffset)
    have covered := inv.table.covered _ _ slot
    have held := inv.inFile _ _ slot
    unfold slotEnd at covered held
    rw [if_pos (by omega), if_pos (by omega)]
    refine ⟨rfl, Or.inr ⟨rfl, _, rfl, fun o low high => ?_⟩⟩
    have place : slotByte image ptrBlock (blockOffset image uOffset + (o - uOffset)) =
        dataOffset image ptrBlock (blockOffset image uOffset) + (o - uOffset) := by
      rw [placed, slotByte]
      omega
    rw [shows o low high, pointerContent_slot allocated, place]
    rfl
  · rcases blockPointer_cases (inv.entries _ (mem_of_getElem? entry)) with free | zero | inUse
    · exact absurd free notFree
    · exact absurd zero notZero
    · exact absurd inUse allocated

/-! ### Writing -/

section Writing

variable {image image' : VdiImage}

/-- Metadata is written below the data area. -/
theorem Layout.allocFile_byte (layout : Layout image) {slot uBlock i : Nat}
    (inside : uBlock < getImageBlocks image.header) (data : image.offStartData ≤ i) :
    (allocFile image slot uBlock).byte i = image.file.byte i := by
  have headerBelow := layout.header_below
  have entryBelow := layout.entry_below inside
  have size : (headerBytes (setImageBlocksAllocated (slot + 1) image.header)).1 =
      (headerBytes image.header).1 := headerBytes_size _ _
  rw [allocFile, ByteFile.byte_write_of_not_mem (by omega)]
  exact ByteFile.byte_write_of_not_mem (by simp only [allocDesc, size]; omega)

section

variable (inv : StoreInv image) {uOffset cb ptrBlock : Nat} {data : Buf}
  (inside : uOffset < getImageDiskSize image.header)

include inv inside

/-- Zeros to an unallocated block: the block is zero already, or the write
covers all of it. -/
theorem StoreInv.elided_content (entry : image.paBlocks[blockIndex image uOffset]? = some ptrBlock)
    (elides : elidesZeros image ptrBlock (clipToBlock image uOffset cb) data = true) (o : Nat) :
    content { image with
        paBlocks := image.paBlocks.set (blockIndex image uOffset) vdiImageBlockZero } o =
      if uOffset ≤ o ∧ o < uOffset + clipToBlock image uOffset cb then some (data (o - uOffset))
      else content image o := by
  have setUp := inv.table.setUp
  have index := setUp.blockIndex_eq inside
  obtain ⟨insideTable, -⟩ := List.getElem?_eq_some_iff.mp entry
  simp only [elidesZeros, Bool.and_eq_true, Bool.or_eq_true, beq_iff_eq] at elides
  obtain ⟨⟨-, zeroOrWhole⟩, zero⟩ := elides
  by_cases here : o / getImageBlockSize image.header = uOffset / getImageBlockSize image.header
  · have marked : (image.paBlocks.set (blockIndex image uOffset) vdiImageBlockZero)[o /
        getImageBlockSize image.header]? = some vdiImageBlockZero := by
      rw [here, ← index, getElem?_set_self insideTable]
    refine ((content_of_entry marked).trans (pointerContent_zero _)).trans ?_
    split
    · rename_i range
      rw [Buf.isZero_iff.mp zero (o - uOffset) (by omega)]
    · rename_i outside
      rcases zeroOrWhole with rfl | whole
      · rw [content_of_entry (by rw [here, ← index]; exact entry), pointerContent_zero]
      · have offset := Nat.mod_lt o setUp.blockSize_pos
        have start := setUp.offset_of_clip_eq whole
        rw [setUp.mem_range here] at outside
        omega
  · rw [if_neg fun range => here (setUp.range_div range.1 range.2).1]
    refine content_frame inv.entries ?_ ?_ fun _ _ => rfl
    · exact ⟨rfl, rfl, rfl, rfl, rfl, rfl, rfl, Or.inl rfl⟩
    · exact getElem?_set_ne fun same => here (by rw [← same, index])

/-- A write in place changes the bytes of its range in its slot. -/
theorem StoreInv.inPlace_content (slot : HasSlot image (blockIndex image uOffset) ptrBlock)
    (o : Nat) :
    content (writeSlot image ptrBlock (blockOffset image uOffset) (clipToBlock image uOffset cb)
        data) o =
      if uOffset ≤ o ∧ o < uOffset + clipToBlock image uOffset cb then some (data (o - uOffset))
      else content image o := by
  have setUp := inv.table.setUp
  have index := setUp.blockIndex_eq inside
  have clip := setUp.clip_le uOffset cb
  have placed := inv.layout.dataOffset_eq ptrBlock (setUp.blockOffset_lt uOffset)
  split
  · rename_i range
    obtain ⟨block, offset⟩ := setUp.range_div range.1 range.2
    have entry : (writeSlot image ptrBlock (blockOffset image uOffset)
        (clipToBlock image uOffset cb) data).paBlocks[o / getImageBlockSize image.header]? =
          some ptrBlock := by
      rw [block, ← index]
      exact slot.1
    rw [content_of_entry entry, pointerContent_slot slot.2]
    simp only [writeSlot, offset, slotByte, placed]
    rw [ByteFile.byte_write_of_mem (by omega) (by omega)]
    congr 2
    omega
  · rename_i outside
    refine content_frame inv.entries ?_ rfl ?_
    · exact ⟨rfl, rfl, rfl, rfl, rfl, rfl, rfl, Or.inl rfl⟩
    intro p other
    refine ByteFile.byte_write_of_not_mem ?_
    rw [placed]
    by_cases samePlace : p = ptrBlock
    · subst samePlace
      obtain ⟨rev, -, -, indexes⟩ := inv.table.reverse
      have here := indexes.distinct other.1 slot.1 slot.2
      rw [index] at here
      rw [setUp.mem_range here] at outside
      unfold slotByte
      omega
    · have total := inv.total
      have apart := slotByte_outside inv.total samePlace (Nat.mod_lt o setUp.blockSize_pos)
      omega

/-- A whole block written to a new slot. -/
theorem StoreInv.allocated_content
    (entry : image.paBlocks[blockIndex image uOffset]? = some ptrBlock)
    (whole : clipToBlock image uOffset cb = getImageBlockSize image.header)
    (update : vdiBlockAllocUpdate
      (writeSlot image (getImageBlocksAllocated image.header) 0 (clipToBlock image uOffset cb) data)
      (getImageBlocksAllocated image.header) (blockIndex image uOffset) = some image') (o : Nat) :
    content image' o =
      if uOffset ≤ o ∧ o < uOffset + clipToBlock image uOffset cb then some (data (o - uOffset))
      else content image o := by
  have setUp := inv.table.setUp
  have positive := setUp.blockSize_pos
  have index := setUp.blockIndex_eq inside
  have start := setUp.offset_of_clip_eq whole
  have placed := inv.layout.dataOffset_eq (getImageBlocksAllocated image.header) positive
  have offset := Nat.mod_lt o positive
  have slot := inv.layout.isAllocated setUp.valid.allocated
  obtain ⟨insideTable, -⟩ := List.getElem?_eq_some_iff.mp entry
  have insideBlocks := insideTable
  rw [setUp.length_paBlocks] at insideBlocks
  obtain ⟨-, rfl⟩ := vdiBlockAllocUpdate_eq update insideTable
  -- only the data write touches the data area
  have written : Layout (writeSlot image (getImageBlocksAllocated image.header) 0
      (clipToBlock image uOffset cb) data) :=
    inv.layout.sameShape ⟨rfl, rfl, rfl, rfl, rfl, rfl, rfl, Or.inl rfl⟩
  have blockSize := (setImageBlocksAllocated_frame image.header
    (getImageBlocksAllocated image.header + 1)).2.1
  have bytes : ∀ i, image.offStartData ≤ i →
      (allocFile (writeSlot image (getImageBlocksAllocated image.header) 0
        (clipToBlock image uOffset cb) data) (getImageBlocksAllocated image.header)
        (blockIndex image uOffset)).byte i =
      (image.file.write (dataOffset image (getImageBlocksAllocated image.header) 0)
        (clipToBlock image uOffset cb) data).byte i :=
    fun i low => written.allocFile_byte insideBlocks low
  by_cases here : o / getImageBlockSize image.header = uOffset / getImageBlockSize image.header
  · have range : uOffset ≤ o ∧ o < uOffset + clipToBlock image uOffset cb :=
      (setUp.mem_range here).mpr (by omega)
    obtain ⟨-, place⟩ := setUp.range_div range.1 range.2
    have taken : (image.paBlocks.set (blockIndex image uOffset)
        (getImageBlocksAllocated image.header))[o / getImageBlockSize (setImageBlocksAllocated
          (getImageBlocksAllocated image.header + 1) image.header)]? =
        some (getImageBlocksAllocated image.header) := by
      rw [blockSize, here, ← index, getElem?_set_self insideTable]
    rw [if_pos range]
    refine ((content_of_entry taken).trans (pointerContent_slot slot _)).trans ?_
    refine congrArg some ((bytes _ (le_slotByte _ _ _)).trans ?_)
    simp only [slotByte, allocDesc, writeSlot, blockSize, place, start]
    rw [ByteFile.byte_write_of_mem (by omega) (by omega)]
    congr 1
    omega
  · rw [if_neg fun range => here (setUp.range_div range.1 range.2).1]
    refine content_frame inv.entries ?_ ?_ ?_
    · exact ⟨rfl, rfl, rfl, rfl, rfl, rfl, rfl, Or.inr ⟨_, rfl⟩⟩
    · exact getElem?_set_ne fun same => here (by rw [← same, index])
    · intro p other
      refine (bytes _ (le_slotByte _ _ _)).trans (ByteFile.byte_write_of_not_mem ?_)
      have apart := slotByte_outside inv.total (inv.table.slot_lt other).ne offset
      have total := inv.total
      omega

end

/-- A successful write shows its data in the clipped range and changes nothing
elsewhere. -/
theorem StoreInv.write_content (inv : StoreInv image) {uOffset cb : Nat} {data : Buf}
    {fNoAlloc : Bool} (inside : uOffset < getImageDiskSize image.header)
    (step : WriteStep image uOffset cb data fNoAlloc image') (o : Nat) : content image' o =
      if uOffset ≤ o ∧ o < uOffset + clipToBlock image uOffset cb then some (data (o - uOffset))
      else content image o := by
  cases step with
  | elided entry unallocated elides => exact inv.elided_content inside entry elides o
  | inPlace entry inUse => exact inv.inPlace_content inside ⟨entry, inUse⟩ o
  | allocated entry unallocated keeps whole allowed update =>
    exact inv.allocated_content inside entry whole update o

end Writing

/-! ### Discarding -/

section Discarding

variable {image image' : VdiImage}

/-- Saving metadata and cutting the file leave the data before the cut. -/
theorem Layout.removeFile_byte (layout : Layout image) {file : ByteFile} {uBlock entry last i : Nat}
    (inside : uBlock < getImageBlocks image.header) (data : image.offStartData ≤ i)
    (before : i < (removeFile image file uBlock entry last).size) :
    (removeFile image file uBlock entry last).byte i = file.byte i := by
  have headerBelow := layout.header_below
  have entryBelow := layout.entry_below inside
  have size := headerBytes_size image.header last
  unfold removeFile at before ⊢
  rw [ByteFile.size_setSize] at before
  rw [ByteFile.byte_setSize_of_lt before, ByteFile.byte_write_of_not_mem (by omega)]
  exact ByteFile.byte_write_of_not_mem (by rw [size]; omega)

/-- Removing a block turns it into zeros and changes no other block, although
the last block of the file may have moved. -/
theorem StoreInv.remove_content (inv : StoreInv image) {uBlock ptrBlock : Nat}
    (slot : HasSlot image uBlock ptrBlock)
    (lastUsed : ∃ i, HasSlot image i (getImageBlocksAllocated image.header - 1))
    (step : RemoveStep image uBlock ptrBlock image') (o : Nat) : content image' o =
      if o / getImageBlockSize image.header = uBlock then some 0 else content image o := by
  have setUp := inv.table.setUp
  have offset := Nat.mod_lt o setUp.blockSize_pos
  have same := step.sameShape
  obtain ⟨kept, size⟩ := inv.table.remove slot lastUsed step
  obtain ⟨rev, tracks, -, indexes⟩ := inv.table.reverse
  obtain ⟨insideTable, -⟩ := List.getElem?_eq_some_iff.mp slot.1
  have insideBlocks := insideTable
  rw [setUp.length_paBlocks] at insideBlocks
  -- a slot still in use lies before the cut
  have before : ∀ i p, HasSlot image' i p →
      slotByte image p (o % getImageBlockSize image.header) < image'.file.size := by
    intro i p found
    have covered := kept.covered i p found
    have inside := slotByte_lt_slotEnd image p offset
    rw [same.slotEnd_eq] at covered
    omega
  cases step with
  | last reverse index back =>
    by_cases here : o / getImageBlockSize image.header = uBlock
    · rw [if_pos here]
      refine (content_of_entry ?_).trans (pointerContent_zero _)
      rw [same.blockSize, here]
      exact getElem?_set_self insideTable
    · rw [if_neg here]
      have entry := getElem?_set_ne (l := image.paBlocks) (a := vdiImageBlockZero) (Ne.symm here)
      refine content_frame inv.entries same entry fun p found => ?_
      exact inv.layout.removeFile_byte insideBlocks (le_slotByte _ _ _)
        (before _ p ⟨entry.trans found.1, found.2⟩)
  | @moved _ last uBlockLast _ reverse index back different room insideLast room' saved =>
    cases tracks _ reverse
    -- the block that moves is the one in the last slot
    obtain ⟨lastBlock, lastSlot⟩ := lastUsed
    have small := inv.table.slot_lt slot
    have lastIndex : last = getImageBlocksAllocated image.header - 1 := by
      rw [index, idxLastBlock, if_neg (by omega)]
    rw [← lastIndex] at lastSlot
    have named := indexes.back _ _ lastSlot.1 lastSlot.2
    rw [back] at named
    cases named
    have apart : uBlock ≠ uBlockLast := by
      rintro rfl
      exact different (Option.some.inj (lastSlot.1.symm.trans slot.1))
    have insideLastBlocks := insideLast
    rw [setUp.length_paBlocks] at insideLastBlocks
    have entryBelow := inv.layout.entry_below insideLastBlocks
    by_cases here : o / getImageBlockSize image.header = uBlock
    · rw [if_pos here]
      refine (content_of_entry ?_).trans (pointerContent_zero _)
      rw [same.blockSize, here]
      exact (getElem?_set_ne (Ne.symm apart)).trans (getElem?_set_self insideTable)
    rw [if_neg here]
    by_cases hereLast : o / getImageBlockSize image.header = uBlockLast
    · have taken : ((image.paBlocks.set uBlock vdiImageBlockZero).set uBlockLast
          ptrBlock)[o / getImageBlockSize image.header]? = some ptrBlock := by
        rw [hereLast]
        exact getElem?_set_self (by rw [length_set]; exact insideLast)
      have cut := before _ ptrBlock ⟨taken, slot.2⟩
      have data := le_slotByte image ptrBlock (o % getImageBlockSize image.header)
      have total := inv.total
      refine (content_of_entry (by rw [same.blockSize]; exact taken)).trans ?_
      rw [content_of_entry (by rw [hereLast]; exact lastSlot.1), pointerContent_slot slot.2,
        pointerContent_slot lastSlot.2, same.blockSize, same.slotByte_eq]
      refine congrArg some ((inv.layout.removeFile_byte insideBlocks data cut).trans ?_)
      rw [movedFile, ByteFile.byte_write_of_not_mem (by omega), copyFile]
      unfold slotByte
      rw [ByteFile.byte_write_of_mem (by omega) (by omega), Buf.drop_apply]
      congr 1
      omega
    · have entry : ((image.paBlocks.set uBlock vdiImageBlockZero).set uBlockLast
          ptrBlock)[o / getImageBlockSize image.header]? =
            image.paBlocks[o / getImageBlockSize image.header]? := by
        rw [getElem?_set_ne (Ne.symm hereLast), getElem?_set_ne (Ne.symm here)]
      refine content_frame inv.entries same entry fun p found => ?_
      have cut := before _ p ⟨entry.trans found.1, found.2⟩
      have data := le_slotByte image p (o % getImageBlockSize image.header)
      have otherSlot : p ≠ ptrBlock := by
        rintro rfl
        exact here (indexes.distinct found.1 slot.1 slot.2)
      have outside := slotByte_outside inv.total otherSlot offset
      refine (inv.layout.removeFile_byte insideBlocks data cut).trans ?_
      rw [movedFile, ByteFile.byte_write_of_not_mem (by omega)]
      exact ByteFile.byte_write_of_not_mem (by omega)

/-- A successful discard changes nothing outside the clipped range. Inside, the
range becomes zeros or stays as it is. -/
theorem StoreInv.discard_content (inv : StoreInv image) {uOffset cb : Nat} {fMarkUnused : Bool}
    (noExtra : image.offStartBlockData = 0) (small : getImageBlockSize image.header < 2 ^ 29)
    (gives : GivesSlot image uOffset cb fMarkUnused →
      ∃ i, HasSlot image i (getImageBlocksAllocated image.header - 1))
    (inside : uOffset < getImageDiskSize image.header)
    (step : DiscardStep image uOffset cb fMarkUnused image') :
    (∀ o, ¬ (uOffset ≤ o ∧ o < uOffset + clipToBlock image uOffset cb) →
      content image' o = content image o) ∧
    ((∀ o, uOffset ≤ o → o < uOffset + clipToBlock image uOffset cb →
        content image' o = content image o) ∨
      ∀ o, uOffset ≤ o → o < uOffset + clipToBlock image uOffset cb →
        content image' o = some 0) := by
  have setUp := inv.table.setUp
  have index := setUp.blockIndex_eq inside
  cases step with
  | unallocated entry unused => exact ⟨fun o _ => rfl, Or.inl fun o _ _ => rfl⟩
  | @whole ptrBlock _ entry inUse full remove =>
    have slot : HasSlot image (blockIndex image uOffset) ptrBlock := ⟨entry, inUse⟩
    have shows := inv.remove_content slot (gives ⟨_, slot, Or.inl full⟩) remove
    have start := setUp.offset_of_clip_eq full
    constructor
    · intro o outside
      rw [shows o, if_neg]
      intro here
      have offset := Nat.mod_lt o setUp.blockSize_pos
      rw [setUp.mem_range (here.trans index)] at outside
      omega
    · right
      intro o low high
      rw [shows o, if_pos ((setUp.range_div low high).1.trans index.symm)]
  | @zeroed ptrBlock entry inUse marked =>
    -- without extra data the zeros go where a write in place would put them
    have place : ptrBlock * image.cbTotalBlockData + image.offStartData +
        blockOffset image uOffset = dataOffset image ptrBlock (blockOffset image uOffset) := by
      rw [inv.layout.dataOffset_eq ptrBlock (setUp.blockOffset_lt uOffset), noExtra]
      omega
    rw [place]
    have shows : ∀ o, content (writeSlot image ptrBlock (blockOffset image uOffset)
        (clipToBlock image uOffset cb) fun _ => 0) o = _ :=
      inv.inPlace_content inside ⟨entry, inUse⟩
    constructor
    · intro o outside
      exact (shows o).trans (if_neg outside)
    · right
      intro o low high
      exact (shows o).trans (if_pos ⟨low, high⟩)
  | @emptied ptrBlock _ entry inUse unmarked noExtra fits empty remove =>
    have slot : HasSlot image (blockIndex image uOffset) ptrBlock := ⟨entry, inUse⟩
    have shows := inv.remove_content slot (gives ⟨_, slot, Or.inr ⟨unmarked, empty⟩⟩) remove
    constructor
    · intro o outside
      rw [shows o]
      split
      · rename_i here
        -- what is left of the block was zero before
        have offset := Nat.mod_lt o setUp.blockSize_pos
        rw [setUp.mem_range (here.trans index)] at outside
        have zero := empty _ (by rwa [cbTested_of_small small]) (by omega)
        rw [content_of_entry (by rw [here]; exact entry), pointerContent_slot inUse, slotByte,
          noExtra, Nat.add_zero, Nat.add_comm image.offStartData, zero]
      · rfl
    · right
      intro o low high
      rw [shows o, if_pos ((setUp.range_div low high).1.trans index.symm)]

end Discarding

end VBox.Storage.Vdi
