import VBox.Storage.Vdi.Content
import VBox.Storage.Vdi.TableRuns

/-!
What is on disk.

The block table is never written as a whole after creation, so every operation
must save the entries it changes. `OnDisk` says that the file holds the table
and what else opening needs; writes and discards keep it except for one branch
of `vdiWrite`, which marks a FREE block ZERO in memory only (`MarksFreeZero`).
-/

namespace VBox.Storage.Vdi

open VBox.Lib List

/-! ### The table in the file -/

/-- Entry `i` of a block table stored at `offStartBlocks`. -/
def storedEntry (file : ByteFile) (offStartBlocks i : Nat) : Nat :=
  wordAt (file.byte.drop offStartBlocks) i

section StoredEntry

variable {file file' : ByteFile} {offStartBlocks i : Nat}

theorem storedEntry_congr
    (agree : ∀ k, offStartBlocks + i * 4 ≤ k → k < offStartBlocks + i * 4 + 4 →
      file'.byte k = file.byte k) :
    storedEntry file' offStartBlocks i = storedEntry file offStartBlocks i := by
  refine wordAt_congr fun k small => ?_
  exact agree _ (by omega) (by omega)

/-- A write that leaves out the entry keeps it. -/
theorem storedEntry_write {off n : Nat} {b : Buf}
    (outside : off + n ≤ offStartBlocks + i * 4 ∨ offStartBlocks + i * 4 + 4 ≤ off) :
    storedEntry (file.write off n b) offStartBlocks i = storedEntry file offStartBlocks i :=
  storedEntry_congr fun k low high => ByteFile.byte_write_of_not_mem (by omega)

/-- Cutting the file behind the entry keeps it. -/
theorem storedEntry_setSize {n : Nat} (fits : offStartBlocks + i * 4 + 4 ≤ n) :
    storedEntry (file.setSize n) offStartBlocks i = storedEntry file offStartBlocks i :=
  storedEntry_congr fun k _ high => ByteFile.byte_setSize_of_lt (by omega)

/-- Saving one entry stores it and keeps all others. -/
theorem storedEntry_save {j ptrBlock : Nat} (small : ptrBlock < 2 ^ 32) :
    storedEntry (file.write (offStartBlocks + j * 4) 4 (leByte ptrBlock)) offStartBlocks i =
      if i = j then ptrBlock else storedEntry file offStartBlocks i := by
  split
  · rename_i same
    subst same
    refine wordAt_of_bytes (fun k below => ?_) small
    rw [Buf.drop_apply, ByteFile.byte_write_of_mem (by omega) (by omega)]
    congr 1
    omega
  · exact storedEntry_write (by omega)

end StoredEntry

/-- The file holds every entry of the table. -/
def TableOnDisk (image : VdiImage) : Prop :=
  ∀ i p : Nat, image.paBlocks[i]? = some p → storedEntry image.file image.offStartBlocks i = p

/-- Reading the table back gives the table. -/
theorem TableOnDisk.words_eq {image : VdiImage} (stored : TableOnDisk image) (setUp : SetUp image) :
    words (image.file.byte.drop image.offStartBlocks) (getImageBlocks image.header) =
      image.paBlocks := by
  refine ext_getElem? fun i => ?_
  rw [getElem?_words, ← setUp.length_paBlocks]
  split
  · rename_i below
    rw [getElem?_eq_getElem below]
    exact congrArg some (stored i _ (getElem?_eq_getElem below))
  · rename_i beyond
    exact (getElem?_eq_none (Nat.le_of_not_lt beyond)).symm

/-! ### What opening needs -/

/-- The version in the pre-header selects the layout of the header. -/
def VersionOf (u32Version : UInt32) : VdiHeader → Prop
  | .v0 _ => u32Version.toNat >>> 16 = 0
  | .v1 minor _ _ => u32Version.toNat >>> 16 ≠ 0 ∧ minor = u32Version.toNat % 2 ^ 16

/-- The file holds the header, as far as its size field says. -/
def StoredHeader (file : ByteFile) : VdiHeader → Prop
  | .v0 h => sizeofPreHeader + sizeofHeader0 ≤ file.size ∧
      header0Codec.dec (file.byte.drop sizeofPreHeader) = h
  | .v1 _ h g =>
      if h.cbHeader.toNat < sizeofHeader1Plus then
        sizeofPreHeader + sizeofHeader1 ≤ file.size ∧
          header1Codec.dec (file.byte.drop sizeofPreHeader) = h
      else
        sizeofPreHeader + sizeofHeader1Plus ≤ file.size ∧
          header1PlusCodec.dec (file.byte.drop sizeofPreHeader) = (h, g)

/-- What the next open of the file needs. The header itself is written by the
flush; a read-only image has it in the file already. -/
structure OnDisk (image : VdiImage) : Prop where
  preHeader : vdiValidatePreHeader (preHeaderCodec.dec (image.file.byte.drop 0)) = .vinfSuccess
  version : VersionOf (preHeaderCodec.dec (image.file.byte.drop 0)).u32Version image.header
  header : image.uOpenFlags.readOnly = true → StoredHeader image.file image.header
  tableInside : image.offStartBlocks + getImageBlocks image.header * 4 ≤ image.file.size
  table : TableOnDisk image

/-- Changing the count of allocated blocks keeps a header valid. -/
theorem vdiValidateHeader_set {header : VdiHeader} (valid : vdiValidateHeader header = .vinfSuccess)
    {n : Nat}
    (fits : getImageBlocksAllocated (setImageBlocksAllocated n header) ≤ getImageBlocks header) :
    vdiValidateHeader (setImageBlocksAllocated n header) = .vinfSuccess := by
  have blocks := (setImageBlocksAllocated_frame header n).1
  have counted : decide (getImageBlocks (setImageBlocksAllocated n header) <
      getImageBlocksAllocated (setImageBlocksAllocated n header)) = false := by
    rw [blocks, decide_eq_false_iff_not]
    exact Nat.not_lt_of_le fits
  rw [vdiValidateHeader_eq_success] at valid ⊢
  obtain ⟨offsets, common⟩ := valid
  -- every other check reads fields the count does not touch
  cases header with
  | v0 h =>
    refine ⟨rfl, ?_⟩
    unfold commonChecksFail at common ⊢
    simp only [Bool.or_eq_false_iff] at common ⊢
    obtain ⟨⟨⟨⟨⟨⟨type, sizes⟩, -⟩, extra⟩, covers⟩, created⟩, modified⟩ := common
    exact ⟨⟨⟨⟨⟨⟨type, sizes⟩, counted⟩, extra⟩, covers⟩, created⟩, modified⟩
  | v1 minor h g =>
    refine ⟨offsets, ?_⟩
    unfold commonChecksFail at common ⊢
    simp only [Bool.or_eq_false_iff] at common ⊢
    obtain ⟨⟨⟨⟨⟨⟨type, sizes⟩, -⟩, extra⟩, covers⟩, created⟩, modified⟩ := common
    exact ⟨⟨⟨⟨⟨⟨type, sizes⟩, counted⟩, extra⟩, covers⟩, created⟩, modified⟩

theorem SameShape.validated {image image' : VdiImage} (same : SameShape image image')
    (setUp' : SetUp image') (valid : vdiValidateHeader image.header = .vinfSuccess) :
    vdiValidateHeader image'.header = .vinfSuccess := by
  have allocated := setUp'.valid.allocated
  rw [same.blocks] at allocated
  rcases same.header with header | ⟨n, header⟩
  · rw [header]
    exact valid
  · rw [header] at allocated ⊢
    exact vdiValidateHeader_set valid allocated

theorem VersionOf.set {u32Version : UInt32} {header : VdiHeader} (n : Nat)
    (version : VersionOf u32Version header) :
    VersionOf u32Version (setImageBlocksAllocated n header) := by
  cases header <;> exact version

/-! ### Writes and discards save the entries they change -/

section Saving

variable {image image' : VdiImage}

/-- A table entry lies between the header and the data area. -/
theorem Layout.storedEntry_place (layout : Layout image) (setUp : SetUp image) {i p : Nat}
    (entry : image.paBlocks[i]? = some p) :
    sizeofPreHeader + (headerBytes image.header).1 ≤ image.offStartBlocks + i * 4 ∧
      image.offStartBlocks + i * 4 + 4 ≤ image.offStartData := by
  obtain ⟨inside, -⟩ := List.getElem?_eq_some_iff.mp entry
  rw [setUp.length_paBlocks] at inside
  have headerEnd := layout.headerEnd
  exact ⟨by omega, layout.entry_below inside⟩

/-- What one step leaves to be shown: it keeps the pre-header and does not cut
into the table, and the table is on disk again. -/
theorem OnDisk.step (onDisk : OnDisk image) (same : SameShape image image')
    (writable : image.uOpenFlags.readOnly = false)
    (preHeader : ∀ k < 72, image'.file.byte k = image.file.byte k)
    (size : image.offStartBlocks + getImageBlocks image.header * 4 ≤ image'.file.size)
    (table : TableOnDisk image') : OnDisk image' := by
  have pre : preHeaderCodec.dec (image'.file.byte.drop 0) =
      preHeaderCodec.dec (image.file.byte.drop 0) := by
    refine preHeaderCodec.dec_congr _ _ fun k below => preHeader _ ?_
    have width : preHeaderCodec.width = 72 := sizeofPreHeader_eq
    omega
  constructor
  · rw [pre]
    exact onDisk.preHeader
  · rw [pre]
    rcases same.header with header | ⟨n, header⟩
    · rw [header]
      exact onDisk.version
    · rw [header]
      exact onDisk.version.set n
  · intro readOnly
    rw [same.uOpenFlags, writable] at readOnly
    cases readOnly
  · rw [same.offStartBlocks, same.blocks]
    exact size
  · exact table

/-- A write marks a FREE block ZERO: zeros to a whole block that has no slot. -/
def MarksFreeZero (image : VdiImage) (uOffset cb : Nat) (data : Buf) : Prop :=
  image.paBlocks[blockIndex image uOffset]? = some vdiImageBlockFree ∧
    elidesZeros image vdiImageBlockFree (clipToBlock image uOffset cb) data = true

/-- The file after a new slot was recorded holds its entry. -/
theorem Layout.allocFile_stored (layout : Layout image) (setUp : SetUp image)
    {slot uBlock i p : Nat} (small : slot < 2 ^ 32) (entry : image.paBlocks[i]? = some p) :
    storedEntry (allocFile image slot uBlock) image.offStartBlocks i =
      if i = uBlock then slot else storedEntry image.file image.offStartBlocks i := by
  obtain ⟨headerBelow, -⟩ := layout.storedEntry_place setUp entry
  rw [allocFile, storedEntry_save small]
  refine if_congr Iff.rfl rfl (storedEntry_write (Or.inl ?_))
  simp only [allocDesc, headerBytes_size]
  exact headerBelow

/-- Every write saves the entry it changes, unless it marks a FREE block ZERO. -/
theorem StoreInv.write_tableOnDisk (inv : StoreInv image) (stored : TableOnDisk image)
    {uOffset cb : Nat} {data : Buf} {fNoAlloc : Bool}
    (saves : ¬ MarksFreeZero image uOffset cb data)
    (step : WriteStep image uOffset cb data fNoAlloc image') : TableOnDisk image' := by
  have setUp := inv.table.setUp
  cases step with
  | elided entry unallocated elides =>
    obtain ⟨inside, -⟩ := List.getElem?_eq_some_iff.mp entry
    rcases blockPointer_cases (inv.entries _ (mem_of_getElem? entry)) with rfl | rfl | inUse
    · exact absurd ⟨entry, elides⟩ saves
    · -- a block that is ZERO already stays ZERO
      intro i p found
      by_cases here : blockIndex image uOffset = i
      · subst here
        rw [getElem?_set_self inside] at found
        exact stored _ p (entry.trans found)
      · rw [getElem?_set_ne here] at found
        exact stored i p found
    · exact absurd inUse unallocated
  | @inPlace ptrBlock entry inUse =>
    intro i p found
    obtain ⟨-, place⟩ := inv.layout.storedEntry_place setUp found
    have placed := inv.layout.dataOffset_eq ptrBlock (setUp.blockOffset_lt uOffset)
    refine Eq.trans ?_ (stored i p found)
    exact storedEntry_write (Or.inr (place.trans (by omega)))
  | @allocated ptrBlock _ entry unallocated keeps whole allowed update =>
    obtain ⟨inside, -⟩ := List.getElem?_eq_some_iff.mp entry
    obtain ⟨-, rfl⟩ := vdiBlockAllocUpdate_eq update inside
    intro i p found
    have placed := inv.layout.dataOffset_eq (getImageBlocksAllocated image.header)
      setUp.blockSize_pos
    have insideI : i < image.paBlocks.length := by
      obtain ⟨inside, -⟩ := List.getElem?_eq_some_iff.mp found
      rwa [allocDesc, writeSlot, length_set] at inside
    have old := getElem?_eq_getElem insideI
    obtain ⟨-, place⟩ := inv.layout.storedEntry_place setUp old
    have written : Layout (writeSlot image (getImageBlocksAllocated image.header) 0
        (clipToBlock image uOffset cb) data) :=
      inv.layout.sameShape ⟨rfl, rfl, rfl, rfl, rfl, rfl, rfl, Or.inl rfl⟩
    refine (written.allocFile_stored (setUp.updateTable rfl)
      (getImageBlocksAllocated_lt _) old).trans ?_
    simp only [allocDesc, writeSlot] at found
    split
    · rename_i here
      rw [here, getElem?_set_self inside] at found
      exact Option.some.inj found
    · rename_i elsewhere
      rw [getElem?_set_ne (Ne.symm elsewhere)] at found
      refine Eq.trans ?_ (stored i p found)
      exact storedEntry_write (Or.inr (place.trans (by omega)))

/-- The file after a block was removed holds the entry of that block. -/
theorem Layout.removeFile_stored (layout : Layout image) (setUp : SetUp image) {file : ByteFile}
    {uBlock ptrBlock last i p : Nat} (small : ptrBlock < 2 ^ 32)
    (entry : image.paBlocks[i]? = some p)
    (cut : image.offStartData ≤ u64Sub image.cbImage image.cbTotalBlockData) :
    storedEntry (removeFile image file uBlock ptrBlock last) image.offStartBlocks i =
      if i = uBlock then ptrBlock else storedEntry file image.offStartBlocks i := by
  obtain ⟨headerBelow, below⟩ := layout.storedEntry_place setUp entry
  rw [removeFile, storedEntry_setSize (below.trans cut), storedEntry_save small]
  refine if_congr Iff.rfl rfl (storedEntry_write (Or.inl ?_))
  rw [headerBytes_size]
  exact headerBelow

/-- The file after a block moved into the hole holds the entry of that block. -/
theorem Layout.movedFile_stored (layout : Layout image) (setUp : SetUp image)
    {ptrBlock last uBlockLast i p : Nat} (small : ptrBlock < 2 ^ 32)
    (entry : image.paBlocks[i]? = some p) :
    storedEntry (movedFile image ptrBlock last uBlockLast) image.offStartBlocks i =
      if i = uBlockLast then ptrBlock else storedEntry image.file image.offStartBlocks i := by
  obtain ⟨-, below⟩ := layout.storedEntry_place setUp entry
  rw [movedFile, storedEntry_save small]
  exact if_congr Iff.rfl rfl (storedEntry_write (Or.inr (below.trans (by omega))))

/-- Cutting off the last slot leaves everything below the data area. -/
theorem StoreInv.cut (inv : StoreInv image) {i p : Nat} (slot : HasSlot image i p) :
    image.offStartData ≤ u64Sub image.cbImage image.cbTotalBlockData := by
  have covered := inv.table.covered i p slot
  rw [inv.slotEnd_eq] at covered
  rw [u64Sub_of_le (by omega)]
  omega

/-- Removing a block saves the entries of that block and of the one that moved. -/
theorem StoreInv.remove_tableOnDisk (inv : StoreInv image) (stored : TableOnDisk image)
    {uBlock ptrBlock : Nat} (slot : HasSlot image uBlock ptrBlock)
    (step : RemoveStep image uBlock ptrBlock image') : TableOnDisk image' := by
  have setUp := inv.table.setUp
  have cut := inv.cut slot
  obtain ⟨inside, -⟩ := List.getElem?_eq_some_iff.mp slot.1
  intro i p found
  cases step with
  | last reverse index back =>
    have insideI : i < image.paBlocks.length := by
      obtain ⟨inside, -⟩ := List.getElem?_eq_some_iff.mp found
      rwa [dropDesc, length_set] at inside
    refine (inv.layout.removeFile_stored setUp zero_small
      (getElem?_eq_getElem insideI) cut).trans ?_
    simp only [dropDesc] at found
    split
    · rename_i here
      rw [here, getElem?_set_self inside] at found
      exact Option.some.inj found
    · rename_i elsewhere
      rw [getElem?_set_ne (Ne.symm elsewhere)] at found
      exact stored i p found
  | @moved _ last uBlockLast entry reverse index back different room insideLast room' saved =>
    have insideI : i < image.paBlocks.length := by
      obtain ⟨inside, -⟩ := List.getElem?_eq_some_iff.mp found
      rwa [moveDesc, length_set, length_set] at inside
    have old := getElem?_eq_getElem insideI
    have small := entries_set (entries_set inv.entries uBlock zero_small) uBlockLast
      slot.2.small _ (mem_of_getElem? saved)
    refine (inv.layout.removeFile_stored setUp small old cut).trans ?_
    simp only [moveDesc] at found
    split
    · rename_i here
      rw [here, saved] at found
      exact Option.some.inj found
    rename_i elsewhere
    rw [inv.layout.movedFile_stored setUp slot.2.small old]
    split
    · rename_i here
      rw [here, getElem?_set_self (by rw [length_set]; exact insideLast)] at found
      exact Option.some.inj found
    · rename_i notLast
      rw [getElem?_set_ne (Ne.symm notLast), getElem?_set_ne (Ne.symm elsewhere)] at found
      exact stored i p found

theorem StoreInv.discard_tableOnDisk (inv : StoreInv image) (stored : TableOnDisk image)
    {uOffset cb : Nat} {fMarkUnused : Bool}
    (step : DiscardStep image uOffset cb fMarkUnused image') : TableOnDisk image' := by
  cases step with
  | unallocated => exact stored
  | zeroed =>
    intro i p found
    obtain ⟨-, place⟩ := inv.layout.storedEntry_place inv.table.setUp found
    refine Eq.trans ?_ (stored i p found)
    exact storedEntry_write (Or.inr (place.trans (by omega)))
  | whole entry inUse _ remove => exact inv.remove_tableOnDisk stored ⟨entry, inUse⟩ remove
  | emptied entry inUse _ _ _ _ remove =>
    exact inv.remove_tableOnDisk stored ⟨entry, inUse⟩ remove

/-! The pre-header and the size of the file. -/

theorem StoreInv.write_preHeader (inv : StoreInv image) {uOffset cb : Nat} {data : Buf}
    {fNoAlloc : Bool} (step : WriteStep image uOffset cb data fNoAlloc image') :
    (∀ k < 72, image'.file.byte k = image.file.byte k) ∧ image.file.size ≤ image'.file.size := by
  have low := inv.layout.offStartData_pos
  cases step with
  | elided => exact ⟨fun _ _ => rfl, le_refl _⟩
  | @inPlace ptrBlock entry inUse =>
    have placed := inv.layout.dataOffset_eq ptrBlock (inv.table.setUp.blockOffset_lt uOffset)
    refine ⟨fun k below => ByteFile.byte_write_of_not_mem (Or.inl (by omega)), ?_⟩
    exact ByteFile.size_le_write _ _ _ _
  | allocated entry unallocated keeps whole allowed update =>
    obtain ⟨inside, -⟩ := List.getElem?_eq_some_iff.mp entry
    obtain ⟨-, rfl⟩ := vdiBlockAllocUpdate_eq update inside
    have placed := inv.layout.dataOffset_eq (getImageBlocksAllocated image.header)
      inv.table.setUp.blockSize_pos
    have headerEnd := inv.layout.headerEnd
    rw [sizeofPreHeader_eq] at headerEnd
    constructor
    · intro k below
      refine (ByteFile.byte_write_of_not_mem (Or.inl ?_)).trans
        ((ByteFile.byte_write_of_not_mem (Or.inl ?_)).trans
          (ByteFile.byte_write_of_not_mem (Or.inl (by omega))))
      · simp only [writeSlot]
        omega
      · rw [sizeofPreHeader_eq]
        exact below
    · exact (ByteFile.size_le_write _ _ _ _).trans
        ((ByteFile.size_le_write _ _ _ _).trans (ByteFile.size_le_write _ _ _ _))

theorem StoreInv.remove_preHeader (inv : StoreInv image) {uBlock ptrBlock : Nat}
    (slot : HasSlot image uBlock ptrBlock) (step : RemoveStep image uBlock ptrBlock image') :
    (∀ k < 72, image'.file.byte k = image.file.byte k) ∧ image.offStartData ≤ image'.file.size := by
  have low := inv.layout.offStartData_pos
  have cut := inv.cut slot
  have headerEnd := inv.layout.headerEnd
  rw [sizeofPreHeader_eq] at headerEnd
  -- metadata and data are all written behind the pre-header
  have kept : ∀ (file : ByteFile) (entry last k : Nat), k < 72 →
      (removeFile image file uBlock entry last).byte k = file.byte k := by
    intro file entry last k below
    rw [removeFile, ByteFile.byte_setSize_of_lt (by omega),
      ByteFile.byte_write_of_not_mem (Or.inl (by omega))]
    exact ByteFile.byte_write_of_not_mem (Or.inl (by rw [sizeofPreHeader_eq]; exact below))
  cases step with
  | last => exact ⟨fun k below => kept _ _ _ k below, cut⟩
  | moved =>
    refine ⟨fun k below => (kept _ _ _ k below).trans ?_, cut⟩
    rw [movedFile, ByteFile.byte_write_of_not_mem (Or.inl (by omega)), copyFile]
    exact ByteFile.byte_write_of_not_mem (Or.inl (by omega))

theorem StoreInv.discard_preHeader (inv : StoreInv image) {uOffset cb : Nat} {fMarkUnused : Bool}
    (tableInside : image.offStartBlocks + getImageBlocks image.header * 4 ≤ image.file.size)
    (step : DiscardStep image uOffset cb fMarkUnused image') :
    (∀ k < 72, image'.file.byte k = image.file.byte k) ∧
      image.offStartBlocks + getImageBlocks image.header * 4 ≤ image'.file.size := by
  have low := inv.layout.offStartData_pos
  have tableEnd := inv.layout.tableEnd
  cases step with
  | unallocated => exact ⟨fun _ _ => rfl, tableInside⟩
  | zeroed =>
    constructor
    · intro k below
      dsimp only
      rw [ByteFile.byte_write_of_not_mem (Or.inl (by omega))]
    · exact tableInside.trans (ByteFile.size_le_write _ _ _ _)
  | whole entry inUse _ remove =>
    obtain ⟨kept, size⟩ := inv.remove_preHeader ⟨entry, inUse⟩ remove
    exact ⟨kept, tableEnd.trans size⟩
  | emptied entry inUse _ _ _ _ remove =>
    obtain ⟨kept, size⟩ := inv.remove_preHeader ⟨entry, inUse⟩ remove
    exact ⟨kept, tableEnd.trans size⟩

theorem OnDisk.write (onDisk : OnDisk image) (inv : StoreInv image) {uOffset cb : Nat} {data : Buf}
    {fNoAlloc : Bool} (writable : image.uOpenFlags.readOnly = false)
    (saves : ¬ MarksFreeZero image uOffset cb data)
    (step : WriteStep image uOffset cb data fNoAlloc image') : OnDisk image' := by
  obtain ⟨preHeader, size⟩ := inv.write_preHeader step
  exact onDisk.step step.sameShape writable preHeader
    (onDisk.tableInside.trans size) (inv.write_tableOnDisk onDisk.table saves step)

theorem OnDisk.discard (onDisk : OnDisk image) (inv : StoreInv image) {uOffset cb : Nat}
    {fMarkUnused : Bool} (writable : image.uOpenFlags.readOnly = false)
    (step : DiscardStep image uOffset cb fMarkUnused image') : OnDisk image' := by
  obtain ⟨preHeader, size⟩ := inv.discard_preHeader onDisk.tableInside step
  exact onDisk.step step.sameShape writable preHeader size
    (inv.discard_tableOnDisk onDisk.table step)

end Saving

end VBox.Storage.Vdi
