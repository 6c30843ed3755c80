import VBox.Storage.Vhd.Image
import Mathlib.Order.Basic
import Mathlib.Tactic.ByContra

/-!
Which accesses of a VHD image stay inside the table and the bitmap.

The open path takes the disk size, the block size and the length of the table from three fields
of the file and relates none of them. `ReadInside` and `WriteInside` say what an access needs of them,
exactly; `inside_of_related` is what an open path that relates them would give every access.
-/

namespace VBox.Storage.Vhd

open List

/-- The sizes derived from the block size. -/
structure Loaded (image : VhdImage) : Prop where
  size_lt : image.cbSize < 2 ^ 64
  block_lt : image.cbDataBlock < 2 ^ 32
  sectors : image.cSectorsPerDataBlock = image.cbDataBlock / 512
  bitmap : image.cbDataBlockBitmap = image.cSectorsPerDataBlock / 8

theorem loaded_of_open {file : VhdFile} {image : VhdImage}
    (opened : vhdOpenImage file = .ok image) : Loaded image := by
  unfold vhdOpenImage at opened
  split at opened
  case h_1 => cases opened
  case h_2 =>
    split at opened
    case h_1 => cases opened
    case h_2 footer _ =>
      have fixed : Loaded (fixedImage file footer) :=
        ⟨footer.curSize.toNat_lt, (by decide : 0 < 2 ^ 32), (Nat.zero_div 512).symm, (Nat.zero_div 8).symm⟩
      split at opened
      · split at opened
        · cases opened
        · split at opened <;> cases opened
      · split at opened
        · exact Except.ok.inj opened ▸ fixed
        · split at opened
          · unfold vhdLoadDynamicDisk at opened
            simp only at opened
            split at opened
            · cases opened
            · split at opened
              · cases opened
              · split at opened
                · cases opened
                · rw [← Except.ok.inj opened]
                  exact ⟨fixed.size_lt, UInt32.toNat_lt _, rfl, rfl⟩
          · cases opened

/-! ### The conditions -/

/-- The number of a sector in its block, and the bytes of the block from it on. -/
def sectorInBlock (image : VhdImage) (sector : Nat) : Nat := sector % (image.cbDataBlock / 512)

def cbRest (image : VhdImage) (sector : Nat) : Nat :=
  image.cbDataBlock - sectorInBlock image sector * 512

/-- What is not cut off is whole sectors, and what is cut off is cut at the end of a sector. -/
def ClipsToSectors (image : VhdImage) (sector cb : Nat) : Prop :=
  if cb ≤ cbRest image sector then cb % 512 = 0 else image.cbDataBlock % 512 = 0

/-- The sectors of the block that the whole bytes of its bitmap stand for. -/
def cMappedSectors (image : VhdImage) : Nat := 8 * (image.cbDataBlock / 512 / 8)

/-- What a read needs: a block of at least a sector, an entry for the block in the table, and, if
the block is allocated, a bit for the sectors it may look at. -/
def ReadInside (image : VhdImage) (uOffset cbRead : Nat) : Prop :=
  let sector := uOffset / 512
  let entry := sector / (image.cbDataBlock / 512) % 2 ^ 32
  image.fDynamic = true →
    512 ≤ image.cbDataBlock ∧ entry < image.cBlockAllocationTableEntries ∧
      ClipsToSectors image sector cbRead ∧
      (image.blockAllocationTable entry ≠ freeEntry →
        sectorInBlock image sector + max 1 (min cbRead (cbRest image sector) / 512) ≤
          cMappedSectors image)

/-- What a write needs. A write that allocates the block sets a bit for each of its sectors. -/
def WriteInside (image : VhdImage) (uOffset cbWrite : Nat) (fNoAlloc : Bool) : Prop :=
  let sector := uOffset / 512 % 2 ^ 32
  let entry := sector / (image.cbDataBlock / 512)
  let cSectors := min cbWrite (cbRest image sector) / 512
  image.fDynamic = true →
    512 ≤ image.cbDataBlock ∧ entry < image.cBlockAllocationTableEntries ∧
      ClipsToSectors image sector cbWrite ∧
      (image.blockAllocationTable entry ≠ freeEntry ∨
          (fNoAlloc = false ∧ min cbWrite (cbRest image sector) = image.cbDataBlock) →
        cSectors ≠ 0 → sectorInBlock image sector + cSectors ≤ cMappedSectors image)

/-- A read is safe whatever is in the bitmap and whether it can be read. -/
def ReadSafe (image : VhdImage) (uOffset cbRead : Nat) : Prop :=
  ∀ fBitmapRead fSectorSet, ∀ event ∈ vhdRead image uOffset cbRead fBitmapRead fSectorSet,
    event.Safe image

/-- A write is safe whatever the outcomes of its allocation and transfers are. -/
def WriteSafe (image : VhdImage) (uOffset cbWrite : Nat) (fNoAlloc : Bool) : Prop :=
  ∀ fAlloc fBitmapRead fUserWrite,
    ∀ event ∈ vhdWrite image uOffset cbWrite fNoAlloc fAlloc fBitmapRead fUserWrite,
      event.Safe image

section

variable {image : VhdImage} (loaded : Loaded image)
include loaded

/-- A bit is inside the bitmap exactly for the sectors the bitmap's whole bytes stand for. -/
theorem bitmap_safe_iff (sector : Nat) :
    (Event.bitmap sector).Safe image ↔ sector < cMappedSectors image := by
  show sector / 8 < image.cbDataBlockBitmap ↔ _
  rw [loaded.bitmap, loaded.sectors, cMappedSectors]
  omega

omit loaded in
theorem sectorInBlock_lt (block : 512 ≤ image.cbDataBlock) (sector : Nat) :
    sectorInBlock image sector * 512 + 512 ≤ image.cbDataBlock := by
  have below : sectorInBlock image sector < image.cbDataBlock / 512 :=
    Nat.mod_lt _ (Nat.div_pos block (by decide))
  omega

/-- The 32-bit computation of the rest of a block does not wrap. -/
theorem restOfBlock_eq (block : 512 ≤ image.cbDataBlock) (sector : Nat) :
    u32 (sectorInBlock image sector * VHD_SECTOR_SIZE) = sectorInBlock image sector * 512 ∧
      restOfBlock image (sectorInBlock image sector) = cbRest image sector := by
  have room := sectorInBlock_lt block sector
  have small := loaded.block_lt
  have sectorSize : VHD_SECTOR_SIZE = 512 := rfl
  have exact32 : u32 (sectorInBlock image sector * VHD_SECTOR_SIZE) =
      sectorInBlock image sector * 512 := by
    rw [sectorSize]
    exact u32_of_lt (by omega)
  have inside : sectorInBlock image sector * 512 ≤ image.cbDataBlock :=
    Nat.le_trans (Nat.le_add_right _ _) room
  refine ⟨exact32, ?_⟩
  rw [restOfBlock, exact32, u32Sub, if_pos inside, cbRest]

omit loaded in
/-- The clipping is safe exactly if it clips to whole sectors. -/
theorem clip_safe_iff (block : 512 ≤ image.cbDataBlock) (sector cb : Nat) :
    (Event.clip (sectorInBlock image sector * 512) (min cb (cbRest image sector))).Safe image ↔
      ClipsToSectors image sector cb := by
  have room := sectorInBlock_lt block sector
  have inside : sectorInBlock image sector * 512 ≤ image.cbDataBlock :=
    Nat.le_trans (Nat.le_add_right _ _) room
  have rest : cbRest image sector = image.cbDataBlock - sectorInBlock image sector * 512 := rfl
  show (sectorInBlock image sector * 512 ≤ image.cbDataBlock ∧
    min cb (cbRest image sector) % 512 = 0) ↔ _
  rw [ClipsToSectors, and_iff_right inside]
  split
  case isTrue fits => rw [Nat.min_eq_left fits]
  case isFalse long =>
    rw [Nat.min_eq_right (by omega)]
    constructor <;> (intro whole; omega)

end

/-! ### The loops -/

theorem lookAhead_all (set : Bool) (count start : Nat) :
    lookAhead (fun _ => set) set count start =
      (range count).map fun i => .bitmap (start + i) := by
  induction count generalizing start with
  | zero => rfl
  | succ count ih =>
    rw [lookAhead, if_pos rfl, ih, range_succ_eq_map, map_cons, map_map]
    congr 1
    apply map_congr_left
    intro i _
    show Event.bitmap (start + 1 + i) = Event.bitmap (start + (i + 1))
    rw [Nat.add_assoc, Nat.add_comm 1 i]

/-- The look-ahead stays below its start and its bound. -/
theorem mem_lookAhead {fSectorSet : Nat → Bool} {first : Bool} {count start : Nat} {event : Event}
    (member : event ∈ lookAhead fSectorSet first count start) :
    ∃ i < count, event = .bitmap (start + i) := by
  induction count generalizing start with
  | zero => cases member
  | succ count ih =>
    rcases mem_cons.mp member with rfl | later
    · exact ⟨0, Nat.succ_pos _, rfl⟩
    · split at later
      · obtain ⟨i, below, rfl⟩ := ih later
        exact ⟨i + 1, Nat.succ_lt_succ below, by rw [Nat.add_assoc, Nat.add_comm 1 i]⟩
      · cases later

section

variable {image : VhdImage} (loaded : Loaded image)
include loaded

theorem setBitmap_safe_iff (start count : Nat) :
    (∀ event ∈ setBitmap start count, event.Safe image) ↔
      (count ≠ 0 → start + count ≤ cMappedSectors image) := by
  unfold setBitmap
  constructor
  · intro safe nonzero
    have last := safe (.bitmap (start + (count - 1)))
      (mem_map_of_mem (mem_range.mpr (by omega)))
    rw [bitmap_safe_iff loaded] at last
    omega
  · intro fits event member
    obtain ⟨i, below, rfl⟩ := mem_map.mp member
    have below := mem_range.mp below
    rw [bitmap_safe_iff loaded]
    have := fits (by omega)
    omega

/-- The bits a read may look at, over all contents of the bitmap. -/
theorem readBitmap_safe_iff (start cbRead : Nat) :
    (∀ fSectorSet, ∀ event ∈ readBitmap fSectorSet start cbRead, event.Safe image) ↔
      start + max 1 (cbRead / 512) ≤ cMappedSectors image := by
  constructor
  · intro safe
    -- A bitmap with all bits set makes the look-ahead run to its end.
    have all := safe fun _ => true
    have first := all (.bitmap start) mem_cons_self
    rw [bitmap_safe_iff loaded] at first
    by_cases more : cbRead / 512 ≤ 1
    · rw [Nat.max_eq_left more]
      exact first
    · have last := all (.bitmap (start + 1 + (cbRead / 512 - 2))) (by
        apply mem_cons_of_mem
        rw [lookAhead_all]
        apply mem_map_of_mem
        rw [mem_range]
        show cbRead / 512 - 2 < cbRead / 512 - 1
        omega)
      rw [bitmap_safe_iff loaded] at last
      rw [Nat.max_eq_right (by omega)]
      omega
  · intro fits fSectorSet event member
    rcases mem_cons.mp member with rfl | later
    · rw [bitmap_safe_iff loaded]
      have := Nat.le_max_left 1 (cbRead / 512)
      omega
    · obtain ⟨i, below, rfl⟩ := mem_lookAhead later
      have below : i < cbRead / 512 - 1 := below
      rw [bitmap_safe_iff loaded]
      have := Nat.le_max_right 1 (cbRead / 512)
      omega

/-! ### Reads and writes -/

omit loaded in
theorem forall_mem_three {a b c : Event} {rest : List Event} :
    (∀ event ∈ [a, b, c] ++ rest, event.Safe image) ↔
      a.Safe image ∧ b.Safe image ∧ c.Safe image ∧ ∀ event ∈ rest, event.Safe image := by
  simp only [cons_append, nil_append, forall_mem_cons]

theorem readSafe_iff {uOffset cbRead : Nat} (inside : uOffset + cbRead ≤ image.cbSize) :
    ReadSafe image uOffset cbRead ↔ ReadInside image uOffset cbRead := by
  have sum : u64 (uOffset + cbRead) = uOffset + cbRead :=
    Nat.mod_eq_of_lt (Nat.lt_of_le_of_lt inside loaded.size_lt)
  unfold ReadSafe ReadInside vhdRead
  rw [sum, loaded.sectors]
  cases dynamic : image.fDynamic with
  | false => simp
  | true =>
    have known : ¬ (image.cbSize < uOffset + cbRead ∨ true = false) := by
      rw [not_or]
      exact ⟨Nat.not_lt.mpr inside, Bool.noConfusion⟩
    simp only [if_neg known, true_implies]
    by_cases empty : image.cbDataBlock / 512 = 0
    · simp only [if_pos empty]
      constructor
      · intro safe
        exact absurd rfl (safe true (fun _ => true) _ mem_cons_self)
      · rintro ⟨block, -⟩
        omega
    · have block : 512 ≤ image.cbDataBlock := by omega
      have small := loaded.block_lt
      have sectorEq : u32 (uOffset / VHD_SECTOR_SIZE % (image.cbDataBlock / 512)) =
          sectorInBlock image (uOffset / 512) := by
        apply u32_of_lt
        have := Nat.mod_lt (uOffset / 512) (Nat.pos_of_ne_zero empty)
        show uOffset / 512 % _ < _
        omega
      obtain ⟨before, rest⟩ := restOfBlock_eq loaded block (uOffset / 512)
      have entryEq : u32 (uOffset / VHD_SECTOR_SIZE / (image.cbDataBlock / 512)) =
          uOffset / 512 / (image.cbDataBlock / 512) % 2 ^ 32 := rfl
      simp only [if_neg empty, sectorEq, before, rest, entryEq, forall_mem_three]
      rw [clip_safe_iff block]
      generalize uOffset / 512 / (image.cbDataBlock / 512) % 2 ^ 32 = entry
      by_cases free : image.blockAllocationTable entry = freeEntry
      · simp only [if_pos free]
        simp only [not_mem_nil, false_implies, implies_true, and_true, ne_eq, free, not_true]
        constructor
        · intro safe
          obtain ⟨-, clip, table⟩ := safe true fun _ => true
          exact ⟨block, table, clip⟩
        · rintro ⟨-, table, clip⟩ _ _
          exact ⟨empty, clip, table⟩
      · simp only [if_neg free]
        constructor
        · intro safe
          obtain ⟨-, clip, table, -⟩ := safe true fun _ => true
          refine ⟨block, table, clip, fun _ => (readBitmap_safe_iff loaded _ _).mp ?_⟩
          intro fSectorSet event member
          exact (safe true fSectorSet).2.2.2 event (by rwa [if_pos rfl])
        · rintro ⟨-, table, clip, bits⟩ fBitmapRead fSectorSet
          refine ⟨empty, clip, table, ?_⟩
          intro event member
          split at member
          · exact (readBitmap_safe_iff loaded _ _).mpr (bits free) fSectorSet event member
          · cases member

theorem writeSafe_iff (uOffset cbWrite : Nat) (fNoAlloc : Bool) :
    WriteSafe image uOffset cbWrite fNoAlloc ↔ WriteInside image uOffset cbWrite fNoAlloc := by
  unfold WriteSafe WriteInside vhdWrite
  rw [loaded.sectors]
  cases dynamic : image.fDynamic with
  | false => simp
  | true =>
    simp only [Bool.true_eq_false, if_false, true_implies]
    by_cases empty : image.cbDataBlock / 512 = 0
    · simp only [if_pos empty]
      constructor
      · intro safe
        exact absurd rfl (safe true true true _ mem_cons_self)
      · rintro ⟨block, -⟩
        omega
    · have block : 512 ≤ image.cbDataBlock := by omega
      have sectorEq : u32 (uOffset / VHD_SECTOR_SIZE) = uOffset / 512 % 2 ^ 32 := rfl
      obtain ⟨before, rest⟩ := restOfBlock_eq loaded block (uOffset / 512 % 2 ^ 32)
      simp only [if_neg empty, sectorEq, forall_mem_three]
      generalize uOffset / 512 % 2 ^ 32 = sector at before rest ⊢
      have inBlock : sector % (image.cbDataBlock / 512) = sectorInBlock image sector := rfl
      simp only [inBlock, before, rest]
      rw [clip_safe_iff block]
      generalize sector / (image.cbDataBlock / 512) = entry
      have bits := setBitmap_safe_iff loaded (sectorInBlock image sector)
        (min cbWrite (cbRest image sector) / 512)
      by_cases free : image.blockAllocationTable entry = freeEntry
      · simp only [if_pos free]
        simp only [ne_eq, free, not_true, false_or]
        constructor
        · intro safe
          obtain ⟨-, clip, table, -⟩ := safe true true true
          refine ⟨block, table, clip, fun whole => bits.mp ?_⟩
          intro event member
          apply (safe true true true).2.2.2 event
          rw [if_neg]
          · exact member
          · rintro (suppressed | partly | failed)
            · rw [whole.1] at suppressed
              cases suppressed
            · exact partly whole.2
            · cases failed
        · rintro ⟨-, table, clip, fits⟩ fAlloc fBitmapRead fUserWrite
          refine ⟨empty, clip, table, ?_⟩
          intro event member
          split at member
          · cases member
          case isFalse whole =>
            rw [not_or, not_or, not_not, Bool.not_eq_true] at whole
            exact bits.mpr (fits ⟨whole.1, whole.2.1⟩) event member
      · simp only [if_neg free]
        simp only [ne_eq, free, not_false_eq_true, true_or, true_implies]
        constructor
        · intro safe
          obtain ⟨-, clip, table, inner⟩ := safe true true true
          exact ⟨block, table, clip, bits.mp (by simpa [VHD_SECTOR_SIZE] using inner)⟩
        · rintro ⟨-, table, clip, fits⟩ fAlloc fBitmapRead fUserWrite
          refine ⟨empty, clip, table, ?_⟩
          intro event member
          split at member
          · exact bits.mpr fits event member
          · cases member

end

/-! ### Opened images -/

/-- The table of an opened image changes as blocks are allocated; the sizes do not. -/
def withTable (image : VhdImage) (table : Nat → UInt32) : VhdImage :=
  { image with blockAllocationTable := table }

theorem Loaded.withTable {image : VhdImage} (loaded : Loaded image) (table : Nat → UInt32) :
    Loaded (withTable image table) :=
  ⟨loaded.size_lt, loaded.block_lt, loaded.sectors, loaded.bitmap⟩

/-- The accesses to an opened image within its disk that stay inside the table, the bitmap and the
block, for every later state of the table. -/
theorem opened_access_safe_iff {file : VhdFile} {image : VhdImage}
    (opened : vhdOpenImage file = .ok image) (table : Nat → UInt32) {uOffset cb : Nat}
    (inside : uOffset + cb ≤ image.cbSize) :
    (ReadSafe (withTable image table) uOffset cb ↔
        ReadInside (withTable image table) uOffset cb) ∧
      ∀ fNoAlloc, WriteSafe (withTable image table) uOffset cb fNoAlloc ↔
        WriteInside (withTable image table) uOffset cb fNoAlloc := by
  have loaded := (loaded_of_open opened).withTable table
  exact ⟨readSafe_iff loaded inside, writeSafe_iff loaded uOffset cb⟩

/-- The open path would have to relate the sizes: blocks of whole bitmap bytes, and a
table that covers the disk. -/
structure Related (image : VhdImage) : Prop where
  block : 4096 ≤ image.cbDataBlock
  whole : image.cbDataBlock % 4096 = 0
  covered : image.cbSize ≤ image.cBlockAllocationTableEntries * image.cbDataBlock
  small : image.cbSize ≤ 2 ^ 41

/-- The sectors of such a disk are in blocks of the table. -/
theorem Related.entry_lt {image : VhdImage} (related : Related image) {uOffset cb : Nat}
    (some : 0 < cb) (inside : uOffset + cb ≤ image.cbSize) : uOffset / 512 < 2 ^ 32 ∧
      uOffset / 512 / (image.cbDataBlock / 512) < image.cBlockAllocationTableEntries := by
  have block := related.block
  have below : uOffset < image.cbSize := by omega
  have size := related.small
  refine ⟨by omega, ?_⟩
  have sectors : image.cbDataBlock = 512 * (image.cbDataBlock / 512) := by
    have := related.whole
    omega
  rw [Nat.div_div_eq_div_mul, ← sectors]
  exact (Nat.div_lt_iff_lt_mul (by omega)).mpr (Nat.lt_of_lt_of_le below related.covered)

/-- A dynamic disk of 1 GB; its table has one entry, for a block of 2 MB. -/
def shortTableFile : VhdFile :=
  { openFile := .ok ()
    cbFile := 4096
    footer := .ok ⟨true, 3, 0x40000000, 512⟩
    backupFooter := .error .io
    dynamicHeader := fun _ => ⟨true, 1536, 1, 0x200000⟩
    allocBitmap := true
    allocTable := true
    readTable := .ok ()
    allocHostTable := true
    table := fun _ => freeEntry }

/-- The image it opens as. -/
def shortTableImage : VhdImage :=
  { cbSize := 0x40000000
    fDynamic := true
    blockAllocationTable := fun _ => freeEntry
    cBlockAllocationTableEntries := 1
    cbDataBlock := 0x200000
    cSectorsPerDataBlock := 4096
    cbDataBlockBitmap := 512
    cDataBlockBitmapSectors := 1
    uCurrentEndOfFile := 3584
    uBlockAllocationTableOffset := 1536 }

theorem shortTableFile_opens : vhdOpenImage shortTableFile = .ok shortTableImage := rfl

/-- The first block of the short table is inside. -/
theorem opened_access_safe_iff_shortTable :
    ReadSafe shortTableImage 4096 512 ∧ ¬ ReadSafe shortTableImage 0x200000 512 := by
  have first := (opened_access_safe_iff shortTableFile_opens (fun _ => freeEntry)
    (by decide : 4096 + 512 ≤ shortTableImage.cbSize)).1
  have second := (opened_access_safe_iff shortTableFile_opens (fun _ => freeEntry)
    (by decide : 0x200000 + 512 ≤ shortTableImage.cbSize)).1
  constructor
  · refine first.mpr fun _ => ⟨by decide, by decide, ?_, fun used => absurd rfl used⟩
    unfold ClipsToSectors
    rw [if_pos (by decide)]
  · intro safe
    exact absurd (second.mp safe rfl).2.1 (by decide)

/-- The open path accepts an image with a table that ends before its disk does, and a read within
the disk looks behind the table. -/
theorem opened_not_inside : ¬ ∀ file image, vhdOpenImage file = .ok image →
    ∀ uOffset cbRead, uOffset + cbRead ≤ image.cbSize → ReadSafe image uOffset cbRead := by
  intro safe
  have read := safe _ _ shortTableFile_opens 0x200000 512 (by decide)
  exact absurd (read true (fun _ => true) (.table 1) (by decide)) (by decide)

end VBox.Storage.Vhd
