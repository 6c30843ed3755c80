import VBox.Storage.Vhd.CompactFill
import Mathlib.Tactic.IntervalCases

/-!
When compacting keeps the disk.

`Compactable` says which packed images are compacted as they should be; `CompactRight` is what
`vhdCompact` should do. What the disk reads where the image has no data is `under`.
-/

namespace VBox.Storage.Vhd

open VBox.Lib List Option

/-! ### The loop that fills the bubbles -/

theorem lastUsed_self (paBlocks : Nat → Option Nat) (i : Nat) :
    lastUsed paBlocks i i = (i, none) := by
  cases i with
  | zero => rfl
  | succ i => rw [lastUsed, if_neg (Nat.lt_irrefl _)]

theorem lastUsed_last {paBlocks : Nat → Option Nat} {i used block : Nat} (behind : i < used)
    (here : paBlocks used = some block) : lastUsed paBlocks i (used + 1) = (used, some block) := by
  rw [lastUsed, if_pos (Nat.lt_succ_of_lt behind), here]

section Loop

variable {host : CompactHost} {before : Disk} {start : Nat} {order : List Nat} {drops : Nat → Bool}

theorem fillBubbles_keep (goes : ∀ call, host.cancels call = false) {calls i block : Nat}
    {s : CompactState} (mine : s.paBlocks i = some block) (rest : List Nat) :
    fillBubbles host start calls (i :: rest) s = fillBubbles host start calls rest s := by
  rw [fillBubbles.eq_def host start calls (i :: rest) s]
  simp only [mine, goes, Bool.false_eq_true, if_false]

theorem fillBubbles_move (goes : ∀ call, host.cancels call = false) {calls i used block : Nat}
    {s : CompactState} {buf : Buf} (hole : s.paBlocks i = none)
    (found : lastUsed s.paBlocks i s.uBlockUsedPos = (used, some block))
    (read : s.disk.file.read (positionOffset s.disk.image start used) (cbBlock s.disk.image) =
      some buf) (rest : List Nat) : fillBubbles host start calls (i :: rest) s =
      fillBubbles host start calls rest (moveBlock start s i used block buf) := by
  rw [fillBubbles.eq_def]
  simp only [hole, found, read, goes, Bool.false_eq_true, if_false]

theorem fillBubbles_done {calls i used : Nat} {s : CompactState} (hole : s.paBlocks i = none)
    (found : lastUsed s.paBlocks i s.uBlockUsedPos = (used, none)) (rest : List Nat) :
    fillBubbles host start calls (i :: rest) s = (none, { s with uBlockUsedPos := used }) := by
  rw [fillBubbles.eq_def]
  simp only [hole, found]

theorem fillBubbles_fill (framed : Framed before start order) (tail : TailKept order drops)
    (goes : ∀ call, host.cancels call = false) (calls : Nat) {len i : Nat}
    {table : Nat → UInt32} {file : ByteFile} {paBlocks : Nat → Option Nat}
    (total : i + len = order.length) (front : i ≤ occupied order drops)
    (fill : Fill before start order drops i table file paBlocks) : ∃ table' file' paBlocks',
      fillBubbles host start calls (range' i len) (fillState before
          (place (start * VHD_SECTOR_SIZE) (cbBlock before.image)
            (order.length - bubbles order drops i))
          (order.length - bubbles order drops i) table file paBlocks) = (none, fillState before
          (place (start * VHD_SECTOR_SIZE) (cbBlock before.image) (occupied order drops))
          (occupied order drops) table' file' paBlocks') ∧
      Fill before start order drops (occupied order drops) table' file' paBlocks' := by
  have whole := @occupied_le order drops
  induction len generalizing i table file paBlocks with
  | zero =>
    have last : i = order.length := by omega
    have same : occupied order drops = i := by omega
    have left : order.length - bubbles order drops i = occupied order drops := by
      rw [last]
      rfl
    rw [left]
    exact ⟨table, file, paBlocks, rfl, same ▸ fill⟩
  | succ len ih =>
    rw [range'_succ]
    by_cases inFront : i < occupied order drops
    · have fewer := @bubbles_mono order drops i order.length (by omega)
      have room : i < order.length - bubbles order drops i :=
        lt_of_lt_of_le inFront (Nat.sub_le_sub_left fewer _)
      cases here : bubble order drops i with
      | false =>
        have mine : paBlocks i = some order[i] := by
          rw [fill.ahead i (Nat.le_refl i), if_pos ⟨room, here⟩]
          exact getElem?_eq_getElem (by omega)
        have same : bubbles order drops (i + 1) = bubbles order drops i := by
          rw [bubbles_succ, here]
          rfl
        have rest := ih (by omega) inFront (fill.keep here)
        rw [same] at rest
        rw [fillBubbles_keep goes mine]
        exact rest
      | true =>
        obtain ⟨u, block, last, behind, mine, moved⟩ := fill.move framed tail inFront here
        have hole : paBlocks i = none := by
          rw [fill.ahead i (Nat.le_refl i), if_neg]
          rintro ⟨-, full⟩
          exact absurd (here.symm.trans full) (by decide)
        have next : order.length - bubbles order drops (i + 1) = u := by
          rw [bubbles_succ, here]
          simp only [if_true]
          omega
        have found := lastUsed_last behind mine
        have read : file.read
            (place (start * VHD_SECTOR_SIZE) (cbBlock before.image) u) (cbBlock before.image) =
            some (file.byte.drop
              (place (start * VHD_SECTOR_SIZE) (cbBlock before.image) u)) := by
          refine ByteFile.read_eq_some.mpr ⟨?_, rfl⟩
          rw [fill.size, ← last, place_succ]
          exact Nat.le_add_right _ _
        have offset : positionOffset before.image start u =
            place (start * VHD_SECTOR_SIZE) (cbBlock before.image) u := by
          rw [positionOffset, u32_of_lt framed.below, Nat.add_comm, place]
        have rest := ih (by omega) inFront moved
        rw [next] at rest
        obtain ⟨table', file', paBlocks', ran, final⟩ := rest
        refine ⟨table', file', paBlocks', ?_, final⟩
        rw [← last]
        have inside : u < order.length := by omega
        rw [fillBubbles_move goes hole found (offset.symm ▸ read), offset,
          moveBlock_fillState framed inside]
        exact ran
    · have same : i = occupied order drops := by omega
      subst same
      have left : order.length - bubbles order drops (occupied order drops) =
          occupied order drops := by
        rw [tail.bubbles_occupied]
        rfl
      have hole : paBlocks (occupied order drops) = none := by
        rw [fill.ahead _ (Nat.le_refl _), if_neg]
        rintro ⟨inside, -⟩
        omega
      refine ⟨table, file, paBlocks, ?_, fill⟩
      have found := lastUsed_self paBlocks (occupied order drops)
      rw [left]
      exact fillBubbles_done hole found _

end Loop

/-! ### What compacting should do -/

/-- The disk before and after. -/
structure Compacted (before after : Disk) (start : Nat) (under : Nat → Nat → List UInt8) :
    Prop where
  shape : ∃ table eof, after.image =
    { before.image with blockAllocationTable := table, uCurrentEndOfFile := eof }
  content : ∀ block < before.image.cBlockAllocationTableEntries,
    ∀ sector < before.image.cSectorsPerDataBlock,
      (readSector after block sector).getD (under block sector) =
        (readSector before block sector).getD (under block sector)
  table : ∀ block < before.image.cBlockAllocationTableEntries, ∀ k < 4,
    after.file.byte (before.image.uBlockAllocationTableOffset + 4 * block + k) =
      be32 (after.image.blockAllocationTable block) k
  /-- The other bytes between the backup of the footer and the blocks. -/
  header : ∀ x, cbFooter ≤ x → x < start * VHD_SECTOR_SIZE →
    (x < before.image.uBlockAllocationTableOffset ∨ before.image.uBlockAllocationTableOffset +
      4 * before.image.cBlockAllocationTableEntries ≤ x) →
    after.file.byte x = before.file.byte x
  apart : ∀ block < before.image.cBlockAllocationTableEntries,
    ∀ other < before.image.cBlockAllocationTableEntries,
    after.image.allocated block = true → after.image.allocated other = true → block ≠ other →
      (after.image.blockAllocationTable block).toNat + before.image.spacing ≤
        (after.image.blockAllocationTable other).toNat ∨
      (after.image.blockAllocationTable other).toNat + before.image.spacing ≤
        (after.image.blockAllocationTable block).toNat
  front : ∀ block < before.image.cBlockAllocationTableEntries,
    after.image.allocated block = true →
    ((after.image.blockAllocationTable block).toNat + before.image.spacing) * VHD_SECTOR_SIZE ≤
      after.image.uCurrentEndOfFile
  size : after.file.size = after.image.uCurrentEndOfFile + cbFooter
  footer : ∀ x < cbFooter,
    after.file.byte (after.image.uCurrentEndOfFile + x) = before.vhdFooterCopy x

structure CompactRight (host : CompactHost) (disk : Disk) (start : Nat)
    (under : Nat → Nat → List UInt8) : Prop where
  kept : Compacted disk (vhdCompact host disk).disk start under
  cancelled : (vhdCompact host disk).rcLoops = some .cancelled →
    (vhdCompact host disk).rc = some .cancelled
  finished : (vhdCompact host disk).rcLoops ≠ some .cancelled →
    (vhdCompact host disk).rc = none ∧
      (vhdCompact host disk).disk.image.uCurrentEndOfFile =
        (start + cBlocksAllocated (vhdCompact host disk).disk.image * disk.image.spacing) *
          VHD_SECTOR_SIZE

/-- The blocks whose data is redundant. -/
def dropped (host : CompactHost) (disk : Disk) (block : Nat) : Bool :=
  disk.image.allocated block && redundantData host block
    (disk.file.byte.drop (blockDataOffset disk.image block)) disk.image.cbDataBlock

/-- The images that are compacted as they should be. -/
structure Compactable (host : CompactHost) (disk : Disk) (start : Nat) (order : List Nat)
    (under : Nat → Nat → List UInt8) : Prop where
  framed : Framed disk start order
  stored : ∀ block < disk.image.cBlockAllocationTableEntries, ∀ k < 4,
    disk.file.byte (disk.image.uBlockAllocationTableOffset + 4 * block + k) =
      be32 (disk.image.blockAllocationTable block) k
  footer : ∀ x < cbFooter,
    disk.file.byte (disk.image.uCurrentEndOfFile + x) = disk.vhdFooterCopy x
  writable : host.fReadOnly = false
  dynamic : disk.image.fDynamic = true
  data : disk.image.cbDataBlock = disk.image.cSectorsPerDataBlock * VHD_SECTOR_SIZE
  bits : disk.image.cSectorsPerDataBlock ≤ 8 * disk.image.cbDataBlockBitmap
  /-- The bits of a block can be counted in 32 bits. -/
  counted : disk.image.cbDataBlock * 8 < 2 ^ 32
  parent : ∀ data, host.parent = some data →
    ∀ block < disk.image.cBlockAllocationTableEntries,
      ∀ sector < disk.image.cSectorsPerDataBlock, under block sector =
        (List.range VHD_SECTOR_SIZE).map fun i => data block (sector * VHD_SECTOR_SIZE + i)
  resolves : Resolves disk.image order
  goes : ∀ call, host.cancels call = false
  /-- Sectors with data in a block of zeros hide only zeros. -/
  zeros : ∀ block ∈ order,
    (disk.file.byte.drop (blockDataOffset disk.image block)).isZero disk.image.cbDataBlock = true →
    ∀ sector < disk.image.cSectorsPerDataBlock, (readSector disk block sector).isSome = true →
      under block sector = (List.range VHD_SECTOR_SIZE).map fun _ => 0
  tail : TailKept order (dropped host disk)

/-! ### The loops together -/

theorem bubbles_length (order : List Nat) (drops : Nat → Bool) :
    bubbles order drops order.length = order.countP drops := by
  induction order with
  | nil => rfl
  | cons block rest ih =>
    have shifted : bubbles (block :: rest) drops (rest.length + 1) =
        bubbles rest drops rest.length + if bubble (block :: rest) drops 0 then 1 else 0 :=
      Nat.count_succ' _ _
    rw [length_cons, shifted, ih, countP_cons]
    rfl

section Whole

variable {host : CompactHost} {disk : Disk} {start : Nat} {order : List Nat}
  {under : Nat → Nat → List UInt8}

/-- The bytes of a block start at its position. -/
theorem Framed.block_start (framed : Framed disk start order) (p : Nat) :
    (start + p * disk.image.spacing) * VHD_SECTOR_SIZE =
      place (start * VHD_SECTOR_SIZE) (cbBlock disk.image) p := by
  rw [place, framed.spaced, Nat.add_mul, Nat.mul_assoc]

section

variable (able : Compactable host disk start order under)

include able

theorem Compactable.redundant {block : Nat}
    (known : block < disk.image.cBlockAllocationTableEntries) :
    redundant host disk block = some (dropped host disk block) := by
  unfold Vhd.redundant dropped
  split
  · rename_i allocated
    obtain ⟨q, here⟩ :=
      mem_iff_getElem?.mp ((able.framed.packed.mem_iff block).mpr ⟨known, allocated⟩)
    have inside := (List.getElem?_eq_some_iff.mp here).1
    have last := @place_lt (start * VHD_SECTOR_SIZE) (cbBlock disk.image) _ _ inside
    have begins := able.framed.block_start q
    have spaced := able.framed.spaced
    have data := able.data
    have size : cbBlock disk.image = disk.image.cDataBlockBitmapSectors * VHD_SECTOR_SIZE +
        disk.image.cbDataBlock := by
      rw [spaced, VhdImage.spacing, Nat.add_mul, data, Nat.add_comm]
    have fits : blockDataOffset disk.image block + disk.image.cbDataBlock ≤ disk.file.size := by
      rw [blockDataOffset, able.framed.packed.entry q block here, able.framed.size,
        able.framed.eof, Nat.add_mul, begins]
      omega
    rw [ByteFile.read, if_pos fits, allocated]
    rfl
  · rename_i free
    rw [Bool.eq_false_iff.mpr free]
    rfl

/-- The state after redundant blocks have been dropped. -/
theorem Compactable.start_fill : Fill disk start order (dropped host disk) 0
      (fun block => if block ∈ disk.image.blocks ∧ dropped host disk block = true then freeEntry
        else disk.image.blockAllocationTable block)
      disk.file
      (fun k => if order[k]?.any (fun block => decide (block ∈ disk.image.blocks) &&
          dropped host disk block) then none
        else order[k]?) := by
  have packed := able.framed.packed
  have none : bubbles order (dropped host disk) 0 = 0 := Nat.count_zero _
  have known : ∀ k block, order[k]? = some block → block ∈ disk.image.blocks :=
    fun k block here => mem_blocks.mpr ((packed.mem_iff block).mp (mem_of_getElem? here)).1
  refine ⟨by rw [none, Nat.sub_zero, able.framed.size, able.framed.eof], fun x _ _ => rfl,
    fun k _ => ?_, fun q block here kept => ?_, fun block inTable gone => ?_⟩
  · rw [none, Nat.sub_zero, bubble]
    cases here : order[k]? with
    | none => simp
    | some block =>
      have inside := (List.getElem?_eq_some_iff.mp here).1
      cases drop : dropped host disk block <;> simp [known k block here, drop, inside]
  · have inside := (List.getElem?_eq_some_iff.mp here).1
    refine ⟨q, by omega, ?_, ?_, fun x _ => rfl, fun _ _ => rfl⟩
    · simp [here, kept]
    · rw [if_neg (by simp [kept])]
      exact packed.entry q block here
  · split
    · rfl
    · rename_i stays
      by_contra allocated
      have member := (packed.mem_iff block).mpr ⟨inTable, bne_iff_ne.mpr allocated⟩
      exact stays ⟨mem_blocks.mpr inTable, gone member⟩

/-- What the run comes to, with any blocks at all. -/
theorem Compactable.run (nonempty : order ≠ []) : ∃ table file paBlocks, vhdCompact host disk =
        ⟨none, none, vhdFlushImage (fillState disk
          (place (start * VHD_SECTOR_SIZE) (cbBlock disk.image)
            (occupied order (dropped host disk)))
          (occupied order (dropped host disk)) table file paBlocks).disk⟩ ∧
      Fill disk start order (dropped host disk) (occupied order (dropped host disk)) table file
        paBlocks := by
  have packed := able.framed.packed
  have count := packed.cBlocksAllocated
  obtain ⟨table, file, paBlocks, filled, fill⟩ := fillBubbles_fill able.framed able.tail able.goes
    disk.image.cBlockAllocationTableEntries (Nat.zero_add order.length) (Nat.zero_le _)
    able.start_fill
  have none' : bubbles order (dropped host disk) 0 = 0 := Nat.count_zero _
  rw [none', Nat.sub_zero, ← able.framed.eof, ← range_eq_range'] at filled
  have marked := dropRedundant_eq packed able.resolves able.goes
    (fun block member => able.redundant (mem_blocks.mp member)) nodup_range
    (fun block member => mem_blocks.mp member)
    (fun block _ => rfl : ∀ block ∈ disk.image.blocks, disk.image.blockAllocationTable block =
      disk.image.blockAllocationTable block) (fun k => order[k]?) order.length
  have positive : order.length ≠ 0 := fun zero => nonempty (length_eq_zero_iff.mp zero)
  refine ⟨table, file, paBlocks, ?_, fill⟩
  rw [vhdCompact]
  simp only
  rw [if_neg (by rw [able.writable]; decide), if_neg (by rw [able.dynamic]; decide), count,
    if_neg positive, packed.offBlocksStart nonempty, packed.resolved able.resolves]
  simp only
  have same : (⟨disk, fun k => order[k]?, order.length⟩ : CompactState) =
      ⟨disk.withTable disk.image.blockAllocationTable, fun k => order[k]?, order.length⟩ := rfl
  rw [same, marked]
  simp only
  have next : ∀ table paBlocks, (⟨disk.withTable table, paBlocks, order.length⟩ : CompactState) =
      fillState disk disk.image.uCurrentEndOfFile order.length table disk.file paBlocks :=
    fun _ _ => rfl
  rw [next, filled]

end

/-! ### The flushed image -/

theorem flush_size {after : Disk} (table : after.image.uBlockAllocationTableOffset +
      4 * after.image.cBlockAllocationTableEntries ≤ after.image.uCurrentEndOfFile)
    (size : after.file.size = after.image.uCurrentEndOfFile + cbFooter) :
    (vhdFlushImage after).file.size = after.image.uCurrentEndOfFile + cbFooter := by
  simp only [vhdFlushImage, vhdUpdateFooter, ByteFile.size_write, size]
  rw [if_neg (by decide), if_neg (by decide)]
  split <;> omega

theorem flush_outside {after : Disk} {x : Nat} (low : cbFooter ≤ x)
    (high : x < after.image.uCurrentEndOfFile)
    (outside : x < after.image.uBlockAllocationTableOffset ∨
      after.image.uBlockAllocationTableOffset + 4 * after.image.cBlockAllocationTableEntries ≤ x) :
    (vhdFlushImage after).file.byte x = after.file.byte x := by
  simp only [vhdFlushImage, vhdUpdateFooter]
  rw [ByteFile.byte_write_of_not_mem (.inl high),
    ByteFile.byte_write_of_not_mem (.inr (by omega)), ByteFile.byte_write_of_not_mem outside]

theorem flush_table {after : Disk} (behind : cbFooter ≤ after.image.uBlockAllocationTableOffset)
    (table : after.image.uBlockAllocationTableOffset +
      4 * after.image.cBlockAllocationTableEntries ≤ after.image.uCurrentEndOfFile)
    {block k : Nat} (known : block < after.image.cBlockAllocationTableEntries) (short : k < 4) :
    (vhdFlushImage after).file.byte (after.image.uBlockAllocationTableOffset + 4 * block + k) =
      be32 (after.image.blockAllocationTable block) k := by
  simp only [vhdFlushImage, vhdUpdateFooter]
  rw [ByteFile.byte_write_of_not_mem (.inl (by omega)),
    ByteFile.byte_write_of_not_mem (.inr (by omega)),
    ByteFile.byte_write_of_mem (by omega) (by omega), Nat.add_assoc, Nat.add_sub_cancel_left,
    tableBytes]
  have entry : (4 * block + k) / 4 = block := by omega
  have byte : (4 * block + k) % 4 = k := by omega
  rw [entry, byte]

theorem flush_footer {after : Disk} {x : Nat} (below : x < cbFooter) :
    (vhdFlushImage after).file.byte (after.image.uCurrentEndOfFile + x) =
      after.vhdFooterCopy x := by
  simp only [vhdFlushImage, vhdUpdateFooter]
  rw [ByteFile.byte_write_of_mem (Nat.le_add_right _ _) (by omega), Nat.add_sub_cancel_left]

/-! ### What blocks read as -/

/-- A sector of a free block is not in this image. -/
theorem readSector_free {disk : Disk} {block sector : Nat}
    (free : disk.image.blockAllocationTable block = freeEntry) :
    readSector disk block sector = none := if_pos free

/-- Two blocks with the same bytes read the same. -/
theorem readSector_moved {before after : Disk} {block : Nat}
    (sectors : after.image.cDataBlockBitmapSectors = before.image.cDataBlockBitmapSectors)
    (allocated : before.image.blockAllocationTable block ≠ freeEntry)
    (allocated' : after.image.blockAllocationTable block ≠ freeEntry) {sector cb : Nat}
    (bit : sector / 8 < cb)
    (data : (before.image.cDataBlockBitmapSectors + sector + 1) * VHD_SECTOR_SIZE ≤ cb)
    (bytes : ∀ x < cb,
      after.file.byte ((after.image.blockAllocationTable block).toNat * VHD_SECTOR_SIZE + x) =
        before.file.byte ((before.image.blockAllocationTable block).toNat * VHD_SECTOR_SIZE + x)) :
    readSector after block sector = readSector before block sector := by
  unfold readSector
  simp only
  rw [if_neg allocated, if_neg allocated', bytes _ bit, sectors]
  refine if_congr Iff.rfl (congrArg some (map_congr_left fun i member => ?_)) rfl
  have short := mem_range.mp member
  have split : ∀ first, (first + before.image.cDataBlockBitmapSectors + sector) *
      VHD_SECTOR_SIZE + i = first * VHD_SECTOR_SIZE +
        ((before.image.cDataBlockBitmapSectors + sector) * VHD_SECTOR_SIZE + i) := by
    intro first
    rw [Nat.add_assoc first, Nat.add_mul first, Nat.add_assoc]
  rw [split, split]
  refine bytes _ ?_
  rw [Nat.succ_mul] at data
  omega

/-- A redundant block hides nothing that differs from it. -/
theorem Compactable.under_dropped (able : Compactable host disk start order under) {block : Nat}
    (member : block ∈ order) (drop : dropped host disk block = true) {sector : Nat}
    (inside : sector < disk.image.cSectorsPerDataBlock) :
    (readSector disk block sector).getD (under block sector) = under block sector := by
  obtain ⟨known, allocated⟩ := (able.framed.packed.mem_iff block).mp member
  cases here : readSector disk block sector with
  | none => rfl
  | some bytes =>
    rw [getD_some]
    -- the sector's bytes are those of the data that was judged
    have data : bytes = (range VHD_SECTOR_SIZE).map fun i =>
        disk.file.byte.drop (blockDataOffset disk.image block)
          (sector * VHD_SECTOR_SIZE + i) := by
      unfold readSector at here
      simp only at here
      split at here
      · cases here
      · split at here
        · rw [← some.inj here]
          refine map_congr_left fun i _ => ?_
          rw [Buf.drop_apply, blockDataOffset, ← Nat.add_assoc, ← Nat.add_mul]
        · cases here
    have last : ∀ i ∈ range VHD_SECTOR_SIZE,
        sector * VHD_SECTOR_SIZE + i < disk.image.cbDataBlock := by
      intro i member
      have short := mem_range.mp member
      have fits := Nat.mul_le_mul_right VHD_SECTOR_SIZE (Nat.succ_le_of_lt inside)
      rw [Nat.succ_mul] at fits
      rw [able.data]
      omega
    have tested : cbTested disk.image.cbDataBlock = disk.image.cbDataBlock := by
      rw [cbTested, u32_of_lt able.counted, Nat.mul_div_cancel _ (by decide)]
    rcases Bool.or_eq_true_iff.mp (Bool.and_eq_true_iff.mp drop).2 with zero | repeated
    · rw [tested] at zero
      rw [able.zeros block member zero sector inside (by rw [here]; rfl), data]
      exact map_congr_left fun i member =>
        Buf.isZero_iff.mp zero _ (last i member)
    · obtain ⟨parent, present, equal⟩ := (Option.any_eq_true _ _).mp repeated
      rw [able.parent parent present block known sector inside, data]
      refine map_congr_left fun i member => ?_
      exact (beq_iff_eq.mp (List.all_eq_true.mp equal _ (mem_range.mpr (last i member)))).symm

/-- A block that is kept is allocated, at one of the occupied positions. -/
theorem Fill.allocated {drops : Nat → Bool} {i : Nat} {table : Nat → UInt32} {file : ByteFile}
    {paBlocks : Nat → Option Nat} (framed : Framed disk start order)
    (fill : Fill disk start order drops i table file paBlocks) {block : Nat}
    (known : block < disk.image.cBlockAllocationTableEntries) :
    table block ≠ freeEntry ↔ block ∈ order ∧ drops block = false := by
  constructor
  · intro allocated
    by_contra gone
    refine allocated (fill.dropped block known fun member => ?_)
    exact Bool.eq_true_of_not_eq_false fun kept => gone ⟨member, kept⟩
  · rintro ⟨member, kept⟩ free
    obtain ⟨q, here⟩ := mem_iff_getElem?.mp member
    obtain ⟨p, inside, -, entry, -⟩ := fill.kept q block here kept
    -- the block that was at the position first has the same entry
    have below : p < order.length := by omega
    have first := framed.packed.entry p order[p] (getElem?_eq_getElem below)
    have same : disk.image.blockAllocationTable order[p] = table block :=
      UInt32.toNat_inj.mp (first.trans entry.symm)
    have there := ((framed.packed.mem_iff order[p]).mp (getElem_mem below)).2
    exact bne_iff_ne.mp there (same.trans free)

/-- A block ends where the next position is, or before. -/
theorem position_lt (start spacing : Nat) {p q : Nat} (before : p < q) :
    start + p * spacing + spacing ≤ start + q * spacing := by
  have next := Nat.mul_le_mul_right spacing (Nat.succ_le_of_lt before)
  rw [Nat.succ_mul] at next
  omega

section

variable (able : Compactable host disk start order under) {table : Nat → UInt32} {file : ByteFile}
  {paBlocks : Nat → Option Nat}
  (fill : Fill disk start order (dropped host disk) (occupied order (dropped host disk)) table file paBlocks)

include able fill

/-- As many blocks are left as are kept. -/
theorem Compactable.filled_blocks : cBlocksAllocated (vhdFlushImage (fillState disk
      (place (start * VHD_SECTOR_SIZE) (cbBlock disk.image) (occupied order (dropped host disk)))
      (occupied order (dropped host disk)) table file paBlocks).disk).image =
      occupied order (dropped host disk) := by
  have framed := able.framed
  have packed := framed.packed
  have perm : Perm
      (disk.image.blocks.filter fun block => table block != freeEntry)
      (order.filter fun block => !dropped host disk block) := by
    refine (perm_ext_iff_of_nodup (nodup_range.filter _)
      (packed.nodup.filter _)).mpr fun block => ?_
    rw [mem_filter, mem_filter, bne_iff_ne, Bool.not_eq_true']
    constructor
    · exact fun here => (fill.allocated framed (mem_blocks.mp here.1)).mp here.2
    · intro here
      have known := ((packed.mem_iff block).mp here.1).1
      exact ⟨mem_blocks.mpr known, (fill.allocated framed known).mpr here⟩
  have total := @length_eq_countP_add_countP _ (dropped host disk) order
  have other : order.countP (fun block => decide ¬ dropped host disk block = true) =
      order.countP fun block => !dropped host disk block := by
    congr 1
    funext block
    cases dropped host disk block <;> rfl
  refine perm.length_eq.trans ?_
  rw [← countP_eq_length_filter, occupied, bubbles_length]
  omega

theorem Compactable.compacted {after : Disk} (filled : after = (fillState disk
      (place (start * VHD_SECTOR_SIZE) (cbBlock disk.image) (occupied order (dropped host disk)))
      (occupied order (dropped host disk)) table file paBlocks).disk) :
    Compacted disk (vhdFlushImage after) start under := by
  have afterTable : after.image.blockAllocationTable = table := by rw [filled]; rfl
  have afterEnd : after.image.uCurrentEndOfFile = place (start * VHD_SECTOR_SIZE)
      (cbBlock disk.image) (occupied order (dropped host disk)) := by rw [filled]; rfl
  have afterFile : after.file = file := by rw [filled]; rfl
  have afterOffset : after.image.uBlockAllocationTableOffset =
      disk.image.uBlockAllocationTableOffset := by rw [filled]; rfl
  have afterEntries : after.image.cBlockAllocationTableEntries =
      disk.image.cBlockAllocationTableEntries := by rw [filled]; rfl
  have afterSectors : after.image.cDataBlockBitmapSectors =
      disk.image.cDataBlockBitmapSectors := by rw [filled]; rfl
  have framed := able.framed
  have left : order.length - bubbles order (dropped host disk)
      (occupied order (dropped host disk)) = occupied order (dropped host disk) := by
    rw [able.tail.bubbles_occupied]
    rfl
  have size := fill.size
  have kept := fill.kept
  rw [left] at size kept
  have eof := @first_le_place (start * VHD_SECTOR_SIZE) (cbBlock disk.image)
    (occupied order (dropped host disk))
  have allocated : ∀ block < disk.image.cBlockAllocationTableEntries,
      table block ≠ freeEntry ↔ block ∈ order ∧ dropped host disk block = false :=
    fun block known => fill.allocated framed known
  have positions : ∀ block < disk.image.cBlockAllocationTableEntries, table block ≠ freeEntry →
      ∃ p, p < occupied order (dropped host disk) ∧ paBlocks p = some block ∧
        (table block).toNat = start + p * disk.image.spacing := by
    intro block known here
    obtain ⟨member, stays⟩ := (allocated block known).mp here
    obtain ⟨q, there⟩ := mem_iff_getElem?.mp member
    obtain ⟨p, inside, mine, entry, -⟩ := kept q block there stays
    exact ⟨p, inside, mine, entry⟩
  have tableEnd : after.image.uBlockAllocationTableOffset +
      4 * after.image.cBlockAllocationTableEntries ≤ after.image.uCurrentEndOfFile := by
    rw [afterOffset, afterEntries, afterEnd]
    exact le_trans framed.table eof
  have entries : ∀ block, (vhdFlushImage after).image.blockAllocationTable block = table block :=
    fun block => congrFun afterTable block
  refine ⟨⟨table, _, by rw [filled]; rfl⟩, fun block known sector inside => ?_,
    fun block known k short => ?_, fun x low high outside => ?_,
    fun block known other known' here there differ => ?_, fun block known here => ?_,
    flush_size tableEnd (by rw [afterFile, afterEnd, size]), fun x below => ?_⟩
  · by_cases member : block ∈ order
    · cases drop : dropped host disk block with
      | true =>
        have gone : table block = freeEntry := fill.dropped block known fun _ => drop
        rw [readSector_free ((entries block).trans gone), able.under_dropped member drop inside]
        rfl
      | false =>
        obtain ⟨q, there⟩ := mem_iff_getElem?.mp member
        obtain ⟨p, front, -, entry, bytes, -⟩ := kept q block there drop
        have live := (allocated block known).mpr ⟨member, drop⟩
        have live' := bne_iff_ne.mp ((framed.packed.mem_iff block).mp member).2
        have ends := @place_lt (start * VHD_SECTOR_SIZE) (cbBlock disk.image) _ _ front
        have begins := @first_le_place (start * VHD_SECTOR_SIZE) (cbBlock disk.image) p
        congr 1
        refine @readSector_moved disk (vhdFlushImage after) block afterSectors live'
          (entries block ▸ live) sector (cbBlock disk.image) ?_ ?_ fun x below => ?_
        · have bits := able.bits
          have : disk.image.cbDataBlockBitmap ≤ cbBlock disk.image := Nat.le_add_left _ _
          omega
        · rw [framed.spaced, VhdImage.spacing]
          refine Nat.mul_le_mul_right _ ?_
          omega
        · have first := framed.packed.entry q block there
          have moved : (table block).toNat * VHD_SECTOR_SIZE =
              place (start * VHD_SECTOR_SIZE) (cbBlock disk.image) p := by
            rw [entry, framed.block_start]
          have behind := framed.behind
          have tableBelow := framed.table
          rw [first, framed.block_start, ← bytes x below, entries, moved, ← afterFile]
          refine flush_outside ?_ ?_ (.inr ?_)
          · omega
          · rw [afterEnd]
            omega
          · rw [afterOffset, afterEntries]
            omega
    · have free : disk.image.blockAllocationTable block = freeEntry := by
        by_contra live
        exact member ((framed.packed.mem_iff block).mpr ⟨known, bne_iff_ne.mpr live⟩)
      have free' : table block = freeEntry :=
        fill.dropped block known fun here => absurd here member
      rw [readSector_free free, readSector_free ((entries block).trans free')]
  · rw [← afterOffset, entries, ← afterTable]
    exact flush_table (afterOffset ▸ framed.behind) tableEnd (afterEntries ▸ known) short
  · rw [flush_outside low (by rw [afterEnd]; omega)
      (by rw [afterOffset, afterEntries]; exact outside), afterFile]
    exact fill.header x low high
  · have live := bne_iff_ne.mp here
    have live' := bne_iff_ne.mp there
    rw [entries] at live live'
    obtain ⟨p, -, mine, entry⟩ := positions block known live
    obtain ⟨q, -, theirs, entry'⟩ := positions other known' live'
    have apart : p ≠ q := by
      rintro rfl
      exact differ (some.inj (mine.symm.trans theirs))
    rw [entries, entries, entry, entry']
    exact (Nat.lt_or_gt_of_ne apart).imp (position_lt start _) (position_lt start _)
  · have live := bne_iff_ne.mp here
    rw [entries] at live
    obtain ⟨p, inside, -, entry⟩ := positions block known live
    have ends := @place_lt (start * VHD_SECTOR_SIZE) (cbBlock disk.image) _ _ inside
    have same : (vhdFlushImage after).image.uCurrentEndOfFile = _ := afterEnd
    rw [same, entries, entry]
    refine le_trans (Nat.le_of_eq ?_) ends
    rw [Nat.add_mul, framed.block_start, framed.spaced]
  · have same : after.vhdFooterCopy = disk.vhdFooterCopy := by rw [filled]; rfl
    rw [← same]
    exact flush_footer below

end

end Whole

/-- An image of packed blocks from sector 4 on, each with one sector for its bitmap. -/
def packedDisk (cSectors cBlocks : Nat) (byte : Buf) : Disk where
  image :=
    { cbSize := cBlocks * (cSectors * 512)
      fDynamic := true
      blockAllocationTable := fun block =>
        if block < cBlocks then UInt32.ofNat (4 + block * (cSectors + 1)) else freeEntry
      cBlockAllocationTableEntries := cBlocks
      cbDataBlock := cSectors * 512
      cSectorsPerDataBlock := cSectors
      cbDataBlockBitmap := cSectors / 8
      cDataBlockBitmapSectors := 1
      uCurrentEndOfFile := 2048 + cBlocks * ((cSectors + 1) * 512)
      uBlockAllocationTableOffset := 1536 }
  vhdFooterCopy := fun _ => 0
  file :=
    { size := 2048 + cBlocks * ((cSectors + 1) * 512) + 512
      byte := fun i =>
        if i < 1536 ∨ 2048 + cBlocks * ((cSectors + 1) * 512) ≤ i then 0
        else if i < 1536 + 4 * cBlocks then
          be32 (UInt32.ofNat (4 + (i - 1536) / 4 * (cSectors + 1))) ((i - 1536) % 4)
        else byte i
      beyond := fun _ outside => if_pos (.inr (by omega)) }

/-- Two blocks of 2 MiB, of which only the second has data. -/
def bubbleDisk : Disk :=
  packedDisk 4096 2 fun i =>
    if i = 4101 * 512 then 0x80 else if i = 4102 * 512 then 1 else 0

def quietHost : CompactHost := ⟨false, none, fun _ => false⟩

theorem bubbleDisk_byte {i : Nat} (low : 1544 ≤ i) (high : i < 4197376) : bubbleDisk.file.byte i =
      if i = 4101 * 512 then 0x80 else if i = 4102 * 512 then 1 else 0 := by
  simp only [bubbleDisk, packedDisk]
  rw [if_neg (by omega), if_neg (by omega)]

theorem bubbleDisk_framed : Framed bubbleDisk 4 [0, 1] where
  packed :=
    { nodup := by decide
      mem_iff := by
        intro block
        constructor
        · intro member
          rcases mem_cons.mp member with rfl | member
          · decide
          · rw [mem_singleton.mp member]
            decide
        · rintro ⟨below, -⟩
          have below : block < 2 := below
          interval_cases block <;> decide
      entry := by
        intro k block here
        match k with
        | 0 => rw [← some.inj here]; rfl
        | 1 => rw [← some.inj here]; rfl
        | k + 2 => cases here }
  spaced := by decide
  below := by decide
  behind := by decide
  table := by decide
  eof := by decide
  size := by decide
  small := by decide

theorem bubbleDisk_dropped :
    dropped quietHost bubbleDisk 0 = true ∧ dropped quietHost bubbleDisk 1 = false := by
  constructor
  · have zero : (bubbleDisk.file.byte.drop (blockDataOffset bubbleDisk.image 0)).isZero
        (cbTested bubbleDisk.image.cbDataBlock) = true := by
      refine Buf.isZero_iff.mpr fun i below => ?_
      have below : i < 2097152 := below
      have first : blockDataOffset bubbleDisk.image 0 = 2560 := by decide
      rw [Buf.drop_apply, first, bubbleDisk_byte (by omega) (by omega), if_neg (by omega),
        if_neg (by omega)]
    rw [dropped, redundantData, zero]
    rfl
  · have data : (bubbleDisk.file.byte.drop (blockDataOffset bubbleDisk.image 1)).isZero
        (cbTested bubbleDisk.image.cbDataBlock) = false := by
      rw [Bool.eq_false_iff, ne_eq, Buf.isZero_iff]
      intro zero
      exact absurd (zero 0 (by decide)) (by decide)
    rw [dropped, redundantData, data]
    rfl

theorem bubbleDisk_compactable : Compactable quietHost bubbleDisk 4 [0, 1]
    fun _ _ => (range VHD_SECTOR_SIZE).map fun _ => 0 where
  framed := bubbleDisk_framed
  stored := by
    intro block below k short
    have below : block < 2 := below
    interval_cases block <;> interval_cases k <;> decide
  footer := by
    intro x _
    simp only [bubbleDisk, packedDisk]
    exact if_pos (.inr (Nat.le_add_right _ _))
  writable := rfl
  dynamic := rfl
  data := by decide
  bits := by decide
  counted := by decide
  parent := fun _ present => nomatch present
  resolves := by
    intro k below
    have below : k < 2 := below
    interval_cases k <;> decide
  goes := fun _ => rfl
  zeros := fun _ _ _ _ _ _ => rfl
  tail := by
    intro k below kept
    have one : occupied [0, 1] (dropped quietHost bubbleDisk) = 1 := by
      rw [occupied, bubbles_length, countP_cons, countP_cons, bubbleDisk_dropped.1,
        bubbleDisk_dropped.2]
      rfl
    rw [one] at kept
    have last : k = 1 := by
      have below : k < 2 := below
      omega
    have here : [0, 1][1]? = some 1 := rfl
    rw [last, bubble, here, any_some, bubbleDisk_dropped.2]

/-- Data in the first or in the last of two blocks of 4 KiB. -/
def firstData : Buf := fun i => if i = 2048 then 0x80 else if i = 2560 then 1 else 0
def lastData : Buf := fun i => if i = 6656 then 0x80 else if i = 7168 then 1 else 0

end VBox.Storage.Vhd
