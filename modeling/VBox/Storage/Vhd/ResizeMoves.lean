import VBox.Storage.Vhd.Resize
import VBox.Storage.Vhd.CompactMarks

/-!
Relocating the blocks in front of the end of the new table.

`Relocated` holds before every step of the loop: each block has its bytes where the table says it
is, apart from the others and in front of the end of the file; it is where it was or behind the old
end.
-/

open Function

namespace VBox.Storage.Vhd

open VBox.Lib

/-- Where a block starts. -/
def VhdImage.blockOffset (image : VhdImage) (block : Nat) : Nat :=
  (image.blockAllocationTable block).toNat * VHD_SECTOR_SIZE

/-- A valid image in which a block takes `cbBlock` bytes of the file. -/
structure Placed (disk : Disk) : Prop where
  sectors : VHD_SECTOR_SIZE ∣ cbBlock disk.image
  positive : 0 < cbBlock disk.image
  eofSectors : VHD_SECTOR_SIZE ∣ disk.image.uCurrentEndOfFile
  size : disk.file.size = disk.image.uCurrentEndOfFile + cbFooter
  inside : ∀ block < disk.image.cBlockAllocationTableEntries, disk.image.allocated block = true →
    disk.image.blockOffset block + cbBlock disk.image ≤ disk.image.uCurrentEndOfFile
  apart : ∀ block < disk.image.cBlockAllocationTableEntries,
    ∀ other < disk.image.cBlockAllocationTableEntries,
    disk.image.allocated block = true → disk.image.allocated other = true → block ≠ other →
      Apart (disk.image.blockOffset block) (cbBlock disk.image) (disk.image.blockOffset other)
        (cbBlock disk.image)

/-- After `steps` steps from `start`. -/
structure Relocated (before : Disk) (start steps : Nat) (disk : Disk) : Prop where
  shape : ∃ table eof, disk.image =
    { before.image with blockAllocationTable := table, uCurrentEndOfFile := eof }
  copy : disk.vhdFooterCopy = before.vhdFooterCopy
  eofSectors : VHD_SECTOR_SIZE ∣ disk.image.uCurrentEndOfFile
  grown : before.image.uCurrentEndOfFile ≤ disk.image.uCurrentEndOfFile
  bounded : disk.image.uCurrentEndOfFile ≤
    before.image.uCurrentEndOfFile + steps * cbBlock before.image
  sizeLow : disk.image.uCurrentEndOfFile ≤ disk.file.size
  sizeHigh : disk.file.size ≤ disk.image.uCurrentEndOfFile + cbFooter
  inside : ∀ block < before.image.cBlockAllocationTableEntries, disk.image.allocated block = true →
    disk.image.blockOffset block + cbBlock before.image ≤ disk.image.uCurrentEndOfFile
  apart : ∀ block < before.image.cBlockAllocationTableEntries,
    ∀ other < before.image.cBlockAllocationTableEntries,
    disk.image.allocated block = true → disk.image.allocated other = true → block ≠ other →
      Apart (disk.image.blockOffset block) (cbBlock before.image) (disk.image.blockOffset other)
        (cbBlock before.image)
  allocated : ∀ block < before.image.cBlockAllocationTableEntries,
    disk.image.allocated block = before.image.allocated block
  bytes : ∀ block < before.image.cBlockAllocationTableEntries, before.image.allocated block = true →
    ∀ x < cbBlock before.image, disk.file.byte (disk.image.blockOffset block + x) =
      before.file.byte (before.image.blockOffset block + x)
  others : ∀ x < before.image.uCurrentEndOfFile,
    (∀ block < before.image.cBlockAllocationTableEntries, before.image.allocated block = true →
      x < before.image.blockOffset block ∨
        before.image.blockOffset block + cbBlock before.image ≤ x) →
    disk.file.byte x = before.file.byte x
  stayed : ∀ block < before.image.cBlockAllocationTableEntries,
    before.image.allocated block = true →
    disk.image.blockAllocationTable block = before.image.blockAllocationTable block ∨
      before.image.uCurrentEndOfFile ≤ disk.image.blockOffset block
  visited : ∀ block < before.image.cBlockAllocationTableEntries,
    before.image.allocated block = true →
    ∀ k < steps, before.image.blockOffset block = start + k * cbBlock before.image →
      before.image.uCurrentEndOfFile ≤ disk.image.blockOffset block

section Relocate

variable {before disk : Disk} {start steps : Nat}

theorem Relocated.refl (placed : Placed before) (start : Nat) :
    Relocated before start 0 before where
  shape := ⟨_, _, rfl⟩
  copy := rfl
  eofSectors := placed.eofSectors
  grown := Nat.le_refl _
  bounded := Nat.le_add_right _ _
  sizeLow := placed.size ▸ Nat.le_add_right _ _
  sizeHigh := Nat.le_of_eq placed.size
  inside := placed.inside
  apart := placed.apart
  allocated := fun _ _ => rfl
  bytes := fun _ _ _ _ _ => rfl
  others := fun _ _ _ => rfl
  stayed := fun _ _ _ => .inl rfl
  visited := fun _ _ _ _ less => absurd less (Nat.not_lt_zero _)

section

variable (relocated : Relocated before start steps disk)

include relocated

theorem Relocated.cbBlock : cbBlock disk.image = cbBlock before.image := by
  obtain ⟨table, eof, shape⟩ := relocated.shape
  rw [shape]
  rfl

theorem Relocated.blocks : disk.image.blocks = before.image.blocks := by
  obtain ⟨table, eof, shape⟩ := relocated.shape
  rw [shape]
  rfl

/-- A step that finds no block. -/
theorem Relocated.skip (missing : ∀ block < before.image.cBlockAllocationTableEntries,
      disk.image.blockOffset block ≠ start + steps * Vhd.cbBlock before.image) :
    Relocated before start (steps + 1) disk := by
  refine { relocated with bounded := ?_, visited := ?_ }
  · refine le_trans relocated.bounded (Nat.add_le_add_left ?_ _)
    exact Nat.mul_le_mul_right _ (Nat.le_succ _)
  · intro block known allocated k less here
    rcases Nat.lt_succ_iff_lt_or_eq.mp less with earlier | rfl
    · exact relocated.visited block known allocated k earlier here
    · rcases relocated.stayed block known allocated with same | moved
      · refine absurd ?_ (missing block known)
        rw [VhdImage.blockOffset, same]
        exact here
      · exact moved

end

/-- The disk after a block has been moved to the end of the file. -/
def movedDisk (off block : Nat) (disk : Disk) : Disk :=
  { disk with
    image :=
      { disk.image with
        blockAllocationTable := Function.update disk.image.blockAllocationTable block
          (UInt32.ofNat (disk.image.uCurrentEndOfFile / VHD_SECTOR_SIZE))
        uCurrentEndOfFile := u64 (disk.image.uCurrentEndOfFile + Vhd.cbBlock disk.image) }
    file := (disk.file.write disk.image.uCurrentEndOfFile (Vhd.cbBlock disk.image)
      (disk.file.byte.drop off)).write off (Vhd.cbBlock disk.image) fun _ => 0 }

section Moved

variable {off block : Nat}

theorem movedDisk_blockOffset_ne {other : Nat} (differ : other ≠ block) :
    (movedDisk off block disk).image.blockOffset other = disk.image.blockOffset other := by
  simp only [movedDisk, VhdImage.blockOffset, update_of_ne differ]

theorem movedDisk_allocated_ne {other : Nat} (differ : other ≠ block) :
    (movedDisk off block disk).image.allocated other = disk.image.allocated other := by
  simp only [movedDisk, VhdImage.allocated, update_of_ne differ]

theorem movedDisk_uCurrentEndOfFile (room : disk.image.uCurrentEndOfFile + Vhd.cbBlock disk.image <
      (2 ^ 32 - 1) * VHD_SECTOR_SIZE) : (movedDisk off block disk).image.uCurrentEndOfFile =
      disk.image.uCurrentEndOfFile + Vhd.cbBlock disk.image := by
  have sector : VHD_SECTOR_SIZE = 512 := rfl
  exact Nat.mod_eq_of_lt (by omega)

/-- The entry of a block at the end of the file fits. -/
theorem toNat_endEntry (small : disk.image.uCurrentEndOfFile < (2 ^ 32 - 1) * VHD_SECTOR_SIZE) :
    (UInt32.ofNat (disk.image.uCurrentEndOfFile / VHD_SECTOR_SIZE)).toNat =
      disk.image.uCurrentEndOfFile / VHD_SECTOR_SIZE := by
  have fits := (Nat.div_lt_iff_lt_mul (by decide)).mpr small
  rw [UInt32.toNat_ofNat']
  exact Nat.mod_eq_of_lt (by omega)

theorem movedDisk_blockOffset (sectors : VHD_SECTOR_SIZE ∣ disk.image.uCurrentEndOfFile)
    (small : disk.image.uCurrentEndOfFile < (2 ^ 32 - 1) * VHD_SECTOR_SIZE) :
    (movedDisk off block disk).image.blockOffset block = disk.image.uCurrentEndOfFile := by
  simp only [movedDisk, VhdImage.blockOffset, update_self, toNat_endEntry small]
  exact Nat.div_mul_cancel sectors

theorem movedDisk_allocated
    (small : disk.image.uCurrentEndOfFile < (2 ^ 32 - 1) * VHD_SECTOR_SIZE) :
    (movedDisk off block disk).image.allocated block = true := by
  simp only [movedDisk, VhdImage.allocated, update_self]
  refine bne_iff_ne.mpr fun free => ?_
  have entry := toNat_endEntry small
  have fits := (Nat.div_lt_iff_lt_mul (by decide)).mpr small
  rw [free] at entry
  have last : freeEntry.toNat = 2 ^ 32 - 1 := rfl
  omega

/-- The block at its new place. -/
theorem movedDisk_byte_new (front : off + Vhd.cbBlock disk.image ≤ disk.image.uCurrentEndOfFile)
    {x : Nat} (below : x < Vhd.cbBlock disk.image) :
    (movedDisk off block disk).file.byte (disk.image.uCurrentEndOfFile + x) =
      disk.file.byte (off + x) := by
  simp only [movedDisk]
  rw [ByteFile.byte_write_of_not_mem (.inr (by omega)),
    ByteFile.byte_write_of_mem (by omega) (by omega), Nat.add_sub_cancel_left]
  rfl

/-- Only the old and the new place are written. -/
theorem movedDisk_byte_old {y : Nat} (below : y < disk.image.uCurrentEndOfFile)
    (outside : y < off ∨ off + Vhd.cbBlock disk.image ≤ y) :
    (movedDisk off block disk).file.byte y = disk.file.byte y := by
  simp only [movedDisk]
  rw [ByteFile.byte_write_of_not_mem outside, ByteFile.byte_write_of_not_mem (.inl below)]

theorem movedDisk_size (front : off + Vhd.cbBlock disk.image ≤ disk.image.uCurrentEndOfFile)
    (positive : 0 < Vhd.cbBlock disk.image)
    (high : disk.file.size ≤ disk.image.uCurrentEndOfFile + Vhd.cbBlock disk.image) :
    (movedDisk off block disk).file.size =
      disk.image.uCurrentEndOfFile + Vhd.cbBlock disk.image := by
  simp only [movedDisk, ByteFile.size_write]
  rw [if_neg (by omega), if_neg (by omega)]
  omega

end Moved

section

variable (placed : Placed before) (relocated : Relocated before start steps disk)
  (room : disk.image.uCurrentEndOfFile + Vhd.cbBlock before.image < (2 ^ 32 - 1) * VHD_SECTOR_SIZE)

include placed relocated room

theorem Relocated.move {block : Nat} (known : block < before.image.cBlockAllocationTableEntries)
    (live : disk.image.allocated block = true)
    (here : disk.image.blockOffset block = start + steps * Vhd.cbBlock before.image) :
    Relocated before start (steps + 1) (movedDisk (disk.image.blockOffset block) block disk) := by
  have cb := relocated.cbBlock
  obtain ⟨table, eof, shape⟩ := relocated.shape
  have positive := placed.positive
  have whole : VHD_SECTOR_SIZE ≤ Vhd.cbBlock before.image := Nat.le_of_dvd positive placed.sectors
  have sector : VHD_SECTOR_SIZE = 512 := rfl
  have footer : cbFooter = 512 := rfl
  have front := relocated.inside block known live
  have low := relocated.sizeLow
  have high := relocated.sizeHigh
  have small : disk.image.uCurrentEndOfFile < (2 ^ 32 - 1) * VHD_SECTOR_SIZE := by omega
  rw [← cb] at front
  have newEof := @movedDisk_uCurrentEndOfFile disk (disk.image.blockOffset block) block (cb ▸ room)
  have newSize := @movedDisk_size disk _ block front (cb ▸ positive) (by omega)
  have newByte := fun x => @movedDisk_byte_new disk _ block front x
  have oldByte := fun y => @movedDisk_byte_old disk (disk.image.blockOffset block) block y
  rw [cb] at front newEof newSize newByte oldByte
  have newOffset := @movedDisk_blockOffset disk (disk.image.blockOffset block) block
    relocated.eofSectors small
  have newLive := @movedDisk_allocated disk (disk.image.blockOffset block) block small
  have oldOffset := fun other =>
    @movedDisk_blockOffset_ne disk (disk.image.blockOffset block) block other
  have oldLive := fun other =>
    @movedDisk_allocated_ne disk (disk.image.blockOffset block) block other
  refine
    { shape := ⟨_, _, by simp only [movedDisk]; rw [shape]⟩
      copy := relocated.copy
      eofSectors := by rw [newEof]; exact Nat.dvd_add relocated.eofSectors placed.sectors
      grown := by rw [newEof]; exact le_trans relocated.grown (Nat.le_add_right _ _)
      bounded := ?_
      sizeLow := by rw [newEof, newSize]
      sizeHigh := by rw [newEof, newSize]; exact Nat.le_add_right _ _
      inside := fun other known' live' => ?_
      apart := fun one known' two known'' live' live'' differ => ?_
      allocated := fun other known' => ?_
      bytes := fun other known' live' x below => ?_
      others := fun x below outside => ?_
      stayed := fun other known' live' => ?_
      visited := fun other known' live' k less there => ?_ }
  · have bounded := relocated.bounded
    rw [newEof, Nat.succ_mul]
    omega
  · rw [newEof]
    by_cases same : other = block
    · rw [same, newOffset]
    · rw [oldLive other same] at live'
      rw [oldOffset other same]
      have := relocated.inside other known' live'
      omega
  · by_cases first : one = block
    · have second : two ≠ block := fun same => differ (first.trans same.symm)
      rw [oldLive two second] at live''
      rw [first, newOffset, oldOffset two second]
      exact .inr (relocated.inside two known'' live'')
    · rw [oldLive one first] at live'
      rw [oldOffset one first]
      by_cases second : two = block
      · rw [second, newOffset]
        exact .inl (relocated.inside one known' live')
      · rw [oldLive two second] at live''
        rw [oldOffset two second]
        exact relocated.apart one known' two known'' live' live'' differ
  · by_cases same : other = block
    · rw [same, newLive, ← relocated.allocated block known, live]
    · rw [oldLive other same]
      exact relocated.allocated other known'
  · by_cases same : other = block
    · subst same
      rw [newOffset, newByte x below]
      exact relocated.bytes other known' live' x below
    · have liveNow : disk.image.allocated other = true := by
        rw [relocated.allocated other known', live']
      have inFront := relocated.inside other known' liveNow
      rw [oldOffset other same, oldByte _ (by omega)]
      · exact relocated.bytes other known' live' x below
      · rcases relocated.apart other known' block known liveNow live same with before | behind
        · exact .inl (by omega)
        · exact .inr (by omega)
  · have liveBefore : before.image.allocated block = true := by
      rw [← relocated.allocated block known, live]
    have grown := relocated.grown
    rw [oldByte x (by omega)]
    · exact relocated.others x below outside
    · rcases relocated.stayed block known liveBefore with same | moved
      · have place : disk.image.blockOffset block = before.image.blockOffset block := by
          rw [VhdImage.blockOffset, same]
          rfl
        rw [place]
        exact outside block known liveBefore
      · exact .inl (by omega)
  · by_cases same : other = block
    · rw [same, newOffset]
      exact .inr relocated.grown
    · rw [oldOffset other same]
      refine (relocated.stayed other known' live').imp_left fun stays => ?_
      simp only [movedDisk, update_of_ne same]
      exact stays
  · by_cases same : other = block
    · rw [same, newOffset]
      exact relocated.grown
    · rw [oldOffset other same]
      rcases Nat.lt_succ_iff_lt_or_eq.mp less with earlier | rfl
      · exact relocated.visited other known' live' k earlier there
      · rcases relocated.stayed other known' live' with stays | moved
        · -- two blocks cannot start at one place
          have liveNow : disk.image.allocated other = true := by
            rw [relocated.allocated other known', live']
          have place : disk.image.blockOffset other = disk.image.blockOffset block := by
            rw [here, ← there, VhdImage.blockOffset, stays]
            rfl
          rcases relocated.apart other known' block known liveNow live same with one | two
          · omega
          · omega
        · exact moved

/-- One step of the loop. -/
theorem Relocated.step (aligned : VHD_SECTOR_SIZE ∣ start)
    (small : start + steps * Vhd.cbBlock before.image < (2 ^ 32 - 1) * VHD_SECTOR_SIZE) :
    ∃ disk', relocateAt (start + steps * Vhd.cbBlock before.image) disk = (true, disk') ∧
      Relocated before start (steps + 1) disk' := by
  have offAligned : VHD_SECTOR_SIZE ∣ start + steps * Vhd.cbBlock before.image :=
    Nat.dvd_add aligned (Nat.dvd_mul_left_of_dvd placed.sectors steps)
  have sectorSmall : (start + steps * Vhd.cbBlock before.image) / VHD_SECTOR_SIZE < 2 ^ 32 - 1 := by
    rw [Nat.div_lt_iff_lt_mul (by decide)]
    exact small
  have sector :=
    @u32_of_lt ((start + steps * Vhd.cbBlock before.image) / VHD_SECTOR_SIZE) (by omega)
  have same := Nat.div_mul_cancel offAligned
  unfold relocateAt
  simp only
  rw [relocated.blocks, sector]
  cases found : before.image.blocks.find? fun block =>
      (disk.image.blockAllocationTable block).toNat ==
        (start + steps * Vhd.cbBlock before.image) / VHD_SECTOR_SIZE with
  | none =>
    refine ⟨disk, rfl, relocated.skip fun block known here => ?_⟩
    refine List.find?_eq_none.mp found block (mem_blocks.mpr known) (beq_iff_eq.mpr ?_)
    rw [← here, VhdImage.blockOffset, Nat.mul_div_cancel _ (by decide)]
  | some block =>
    have known := mem_blocks.mp (List.mem_of_find?_eq_some found)
    have passes := List.find?_some found
    have entry := beq_iff_eq.mp passes
    have here : disk.image.blockOffset block = start + steps * Vhd.cbBlock before.image := by
      rw [VhdImage.blockOffset, entry, same]
    have live : disk.image.allocated block = true := by
      refine bne_iff_ne.mpr fun free => ?_
      rw [free] at entry
      have : freeEntry.toNat = 2 ^ 32 - 1 := rfl
      omega
    have moved := relocated.move placed room known live here
    have front := relocated.inside block known live
    have low := relocated.sizeLow
    have read : disk.file.read (start + steps * Vhd.cbBlock before.image)
        (Vhd.cbBlock disk.image) =
        some (disk.file.byte.drop (start + steps * Vhd.cbBlock before.image)) := by
      refine ByteFile.read_eq_some.mpr ⟨?_, rfl⟩
      rw [relocated.cbBlock, ← here]
      omega
    rw [here] at moved
    refine ⟨_, ?_, moved⟩
    simp only [read]
    rfl

end

/-- The whole loop. -/
theorem Relocated.run (placed : Placed before) (aligned : VHD_SECTOR_SIZE ∣ start)
    (front : start ≤ before.image.uCurrentEndOfFile) {count : Nat}
    (room : before.image.uCurrentEndOfFile + (steps + count) * Vhd.cbBlock before.image <
      (2 ^ 32 - 1) * VHD_SECTOR_SIZE) (relocated : Relocated before start steps disk) :
    ∃ disk', relocate count (start + steps * Vhd.cbBlock before.image) disk = (true, disk') ∧
      Relocated before start (steps + count) disk' := by
  induction count generalizing steps disk with
  | zero => exact ⟨disk, rfl, relocated⟩
  | succ count ih =>
    have total : (steps + (count + 1)) * Vhd.cbBlock before.image =
        (steps + 1 + count) * Vhd.cbBlock before.image := by
      rw [Nat.add_assoc steps 1 count, Nat.add_comm 1 count]
    have more : (steps + 1) * Vhd.cbBlock before.image ≤
        (steps + (count + 1)) * Vhd.cbBlock before.image := Nat.mul_le_mul_right _ (by omega)
    have next : (steps + 1) * Vhd.cbBlock before.image =
        steps * Vhd.cbBlock before.image + Vhd.cbBlock before.image := Nat.succ_mul _ _
    have bounded := relocated.bounded
    obtain ⟨disk', stepped, relocated'⟩ := relocated.step placed (by omega) aligned (by omega)
    obtain ⟨disk'', ran, final⟩ := ih (total ▸ room) relocated'
    rw [relocate, stepped]
    have off : u64 (start + steps * Vhd.cbBlock before.image + Vhd.cbBlock disk'.image) =
        start + (steps + 1) * Vhd.cbBlock before.image := by
      rw [relocated'.cbBlock, next, Nat.add_assoc]
      have : VHD_SECTOR_SIZE = 512 := rfl
      exact Nat.mod_eq_of_lt (by omega)
    have same : steps + (count + 1) = steps + 1 + count := by omega
    simp only [off]
    exact ⟨disk'', ran, same ▸ final⟩

end Relocate

/-! ### The sizes -/

/-- The table entries a size needs. -/
def entriesFor (image : VhdImage) (cbSize : Nat) : Nat :=
  (cbSize + (image.cbDataBlock - 1)) / image.cbDataBlock

theorem cBlocksNew_eq {image : VhdImage} {cbSize : Nat} (positive : 0 < image.cbDataBlock)
    (small : entriesFor image cbSize < 2 ^ 32) :
    cBlocksNew image cbSize = entriesFor image cbSize := by
  have split := Nat.div_add_mod cbSize image.cbDataBlock
  have rest := Nat.mod_lt cbSize positive
  have rounded : entriesFor image cbSize =
      cbSize / image.cbDataBlock + if cbSize % image.cbDataBlock = 0 then 0 else 1 := by
    rw [entriesFor]
    have shifted : cbSize + (image.cbDataBlock - 1) =
        cbSize % image.cbDataBlock + (image.cbDataBlock - 1) +
          image.cbDataBlock * (cbSize / image.cbDataBlock) := by omega
    rw [shifted, Nat.add_mul_div_left _ _ positive, Nat.add_comm]
    congr 1
    split
    · rename_i whole
      rw [whole, Nat.zero_add]
      exact Nat.div_eq_of_lt (by omega)
    · rename_i inexact
      refine Nat.div_eq_of_lt_le ?_ ?_
      · omega
      · omega
  rw [cBlocksNew]
  split
  · rename_i whole
    rw [if_pos whole, Nat.add_zero] at rounded
    rw [rounded] at small ⊢
    exact u32_of_lt small
  · rename_i inexact
    rw [if_neg inexact] at rounded
    rw [rounded] at small ⊢
    exact u32_of_lt small

theorem le_align32 {value : Nat} (small : value + 511 < 2 ^ 32) :
    value ≤ align32 value ∧ align32 value ≤ value + 511 := by
  rw [align32, u32_of_lt small]
  omega

theorem offStartDataOld_cases (image : VhdImage) :
    cBlocksAllocated image = 0 ∨ VHD_SECTOR_SIZE ∣ offStartDataOld image := by
  unfold cBlocksAllocated offStartDataOld
  generalize image.blocks.filter image.allocated = blocks
  have all : ∀ start, VHD_SECTOR_SIZE ∣ start → VHD_SECTOR_SIZE ∣ blocks.foldl (fun start block =>
        min start (u32 ((image.blockAllocationTable block).toNat * VHD_SECTOR_SIZE))) start := by
    induction blocks with
    | nil => exact fun _ divides => divides
    | cons block rest ih =>
      intro start divides
      refine ih _ ?_
      have wrapped : VHD_SECTOR_SIZE ∣
          u32 ((image.blockAllocationTable block).toNat * VHD_SECTOR_SIZE) :=
        (Nat.dvd_mod_iff (by decide)).mpr (Nat.dvd_mul_left _ _)
      rcases Nat.le_total start
        (u32 ((image.blockAllocationTable block).toNat * VHD_SECTOR_SIZE)) with le | le
      · simp only [Nat.min_eq_left le]
        exact divides
      · simp only [Nat.min_eq_right le]
        exact wrapped
  cases blocks with
  | nil => exact .inl rfl
  | cons block rest =>
    refine .inr ?_
    rw [List.foldl_cons]
    have wrapped : VHD_SECTOR_SIZE ∣
        u32 ((image.blockAllocationTable block).toNat * VHD_SECTOR_SIZE) :=
      (Nat.dvd_mod_iff (by decide)).mpr (Nat.dvd_mul_left _ _)
    have below : min (2 ^ 64 - 1)
        (u32 ((image.blockAllocationTable block).toNat * VHD_SECTOR_SIZE)) =
        u32 ((image.blockAllocationTable block).toNat * VHD_SECTOR_SIZE) :=
      Nat.min_eq_right (by
        have := u32_lt ((image.blockAllocationTable block).toNat * VHD_SECTOR_SIZE)
        omega)
    have whole := all _ (Nat.dvd_trans (Nat.dvd_refl _) wrapped)
    rw [List.foldl_cons] at whole
    rw [below]
    rw [Nat.min_self] at whole
    exact whole

end VBox.Storage.Vhd
