import VBox.Storage.Vdi.CompactRuns

/-!
Where the operations look for a sector.

`vdiRead` and `vdiWrite` find byte `off` of a block at `dataOffset`. `vdiDiscard` leaves
the extra data of the block out of its sum, and `ASMBitFirstSet` is given the size of the
block in bits, as a 32-bit word. `sectorsAgree_iff` says for which images all operations
mean the same bytes all the same.
-/

namespace VBox.Storage.Vdi

open VBox.Lib

variable {image : VdiImage}

/-- `u64Offset` of `vdiDiscard` for byte `off` of the block in a slot. -/
def discardOffset (image : VdiImage) (slot off : Nat) : Nat :=
  slot * image.cbTotalBlockData + image.offStartData + off

/-- Where `vdiDiscardBlockAsync` moves a slot. -/
def moveOffset (image : VdiImage) (slot : Nat) : Nat :=
  slot * image.cbTotalBlockData + image.offStartData

/-- The end of the file for `vdiCompact` with `uBlockUsedPos` slots in use. -/
def truncateOffset (image : VdiImage) (uBlockUsedPos : Nat) : Nat :=
  uBlockUsedPos * image.cbTotalBlockData + image.offStartData + image.offStartBlockData

section Discarding

variable {uOffset cb ptrBlock : Nat}

end Discarding

/-- All operations find every byte of the allocated blocks where `vdiRead` and `vdiWrite`
do: what a discard zeroes, tests and moves, what a compaction reads, tests and keeps of
the file. -/
structure PlacesAgree (image : VdiImage) : Prop where
  discarded : ∀ i p, HasSlot image i p → ∀ off < getImageBlockSize image.header,
    discardOffset image p off = dataOffset image p off
  tested : ∀ i p, HasSlot image i p → ∀ off < getImageBlockSize image.header,
    ∃ j < cbTested (getImageBlockSize image.header),
      discardOffset image p j = dataOffset image p off ∧
      compactOffset image p + j = dataOffset image p off
  moved : ∀ i p, HasSlot image i p → ∀ q, ∀ off < getImageBlockSize image.header,
    ∃ j < image.cbTotalBlockData, moveOffset image p + j = dataOffset image p off ∧
      moveOffset image q + j = dataOffset image q off
  kept : ∀ i p, HasSlot image i p → ∀ n, p < n → ∀ off < getImageBlockSize image.header,
    dataOffset image p off < truncateOffset image n

/-- On an image in order a discard, marked or not, changes no byte outside its range. -/
def DiscardsKeep (image : VdiImage) : Prop :=
  StoreInv image → Dense image → ∀ uOffset cb fMarkUnused result,
    uOffset + cb ≤ getImageDiskSize image.header →
    vdiDiscard image uOffset cb fMarkUnused = some result →
    ∀ o, ¬ (uOffset ≤ o ∧ o < uOffset + clipToBlock image uOffset cb) →
      content result.image o = content image o

/-- A compaction without I/O errors shows the same as before. -/
def CompactionsKeep (image : VdiImage) : Prop :=
  Compactable image → ∀ host parent, Presents host parent → (∀ op, host.fails op = false) →
    ∃ rc image', vdiCompact image host = some (rc, image') ∧ ShowsSame image host parent image'

structure SectorsAgree (image : VdiImage) : Prop where
  places : PlacesAgree image
  discards : DiscardsKeep image
  compactions : CompactionsKeep image

/-- Nothing wraps and there is no extra data, or there is no block to look for. -/
def PlainBlocks (image : VdiImage) : Prop :=
  (image.offStartBlockData = 0 ∧
    image.offStartData + getImageBlockSize image.header ≤ 2 ^ 32 ∧
    getImageBlockSize image.header < 2 ^ 29) ∨ ∀ i p, ¬ HasSlot image i p

theorem SetUp.data_lt (setUp : SetUp image) :
    image.offStartData < 2 ^ 32 ∧ image.offStartBlockData < 2 ^ 32 := by
  rw [setUp.offStartData, setUp.offStartBlockData]
  cases image.header with
  | v0 h => exact ⟨Nat.mod_lt _ (by decide), Nat.two_pow_pos 32⟩
  | v1 minor h g => exact ⟨UInt32.toNat_lt _, UInt32.toNat_lt _⟩

theorem PlacesAgree.plain (setUp : SetUp image) (agree : PlacesAgree image) :
    PlainBlocks image := by
  by_cases used : ∃ i p, HasSlot image i p
  · obtain ⟨i, p, slot⟩ := used
    have positive := setUp.blockSize_pos
    obtain ⟨smallData, smallExtra⟩ := setUp.data_lt
    have first := agree.discarded i p slot 0 positive
    have last := agree.discarded i p slot (getImageBlockSize image.header - 1) (by omega)
    obtain ⟨j, below, here, -⟩ := agree.tested i p slot (getImageBlockSize image.header - 1)
      (by omega)
    rw [← last] at here
    simp only [discardOffset, dataOffset, u32] at first last here
    simp only [cbTested, u32] at below
    refine .inl ⟨?_, ?_, ?_⟩ <;> omega
  · exact .inr fun i p slot => used ⟨i, p, slot⟩

theorem SetUp.places (setUp : SetUp image) (plain : PlainBlocks image) : PlacesAgree image := by
  rcases plain with ⟨noExtra, noWrap, small⟩ | unused
  · have positive := setUp.blockSize_pos
    have total : image.cbTotalBlockData = getImageBlockSize image.header := by
      rw [setUp.cbTotalBlockData, ← setUp.offStartBlockData, noExtra, Nat.zero_add]
      exact u32_of_lt (by omega)
    have place : ∀ p, ∀ off < getImageBlockSize image.header, dataOffset image p off =
        p * image.cbTotalBlockData + image.offStartData + off := by
      intro p off below
      rw [dataOffset, noExtra, u32_of_lt (by omega)]
      omega
    have compact (p : Nat) :
        compactOffset image p = p * image.cbTotalBlockData + image.offStartData := by
      rw [compactOffset, noExtra, u32_of_lt (by omega), Nat.add_zero]
    refine ⟨?_, ?_, ?_, ?_⟩
    · intro i p _ off below
      exact (place p off below).symm
    · intro i p _ off below
      rw [cbTested_of_small small, place p off below, compact]
      exact ⟨off, below, rfl, rfl⟩
    · intro i p _ q off below
      rw [total, place p off below, place q off below]
      exact ⟨off, below, by rw [moveOffset, total], by rw [moveOffset, total]⟩
    · intro i p _ n less off below
      have room := slot_below image.cbTotalBlockData less
      rw [place p off below, truncateOffset]
      omega
  · exact ⟨fun i p slot => absurd slot (unused i p), fun i p slot => absurd slot (unused i p),
      fun i p slot => absurd slot (unused i p), fun i p slot => absurd slot (unused i p)⟩

theorem PlainBlocks.discards (plain : PlainBlocks image) : DiscardsKeep image := by
  intro inv dense uOffset cb fMarkUnused result inside run o outside
  by_cases success : result.rc = .vinfSuccess
  · obtain ⟨-, positive, -, -, step⟩ := vdiDiscard_success run success
    rcases plain with ⟨noExtra, -, small⟩ | unused
    · exact (inv.discard_content noExtra small (dense.last_used inv) (by omega) step).1 o outside
    · generalize result.image = image' at step
      cases step with
      | unallocated => rfl
      | whole entry inUse => exact absurd ⟨entry, inUse⟩ (unused _ _)
      | zeroed entry inUse => exact absurd ⟨entry, inUse⟩ (unused _ _)
      | emptied entry inUse => exact absurd ⟨entry, inUse⟩ (unused _ _)
  · rw [vdiDiscard_failure run success]

theorem PlainBlocks.compactions (plain : PlainBlocks image) : CompactionsKeep image := by
  intro comp host parent presents quiet
  have noticed : Noticed image host := fun op fails => by
    rw [quiet op] at fails
    cases fails
  have zeros : ZerosAreZero image host := by
    rcases plain with ⟨-, -, small⟩ | unused
    · exact zerosAreZero_of_small comp small
    · exact fun i p slot => absurd slot (unused i p)
  cases writable : image.uOpenFlags.readOnly with
  | true =>
    refine ⟨.verrVdImageReadOnly, image, ?_, fun _ _ _ => rfl⟩
    rw [vdiCompact, if_pos writable]
  | false =>
    by_cases nonempty : compactBlocks image = 0
    · refine ⟨.vinfSuccess, image, ?_, fun _ _ _ => rfl⟩
      rw [vdiCompact, if_neg (by rw [writable]; decide), if_pos nonempty]
    · obtain ⟨rc, st, run, outcome⟩ := comp.run presents
      refine ⟨rc, st.image, ?_, ?_⟩
      · rw [vdiCompact_eq host writable nonempty, run]
        rfl
      · rcases outcome with ⟨-, done⟩ | ⟨-, stopped⟩
        · exact done.shows noticed zeros
        · exact stopped.shows noticed zeros

/-- The operations agree on the places of the sectors exactly where there is no extra
data, a block is smaller than 512 MB and the first block ends below 4 GB, or no block is
allocated. -/
theorem sectorsAgree_iff (setUp : SetUp image) : SectorsAgree image ↔ PlainBlocks image :=
  ⟨fun agree => agree.places.plain setUp,
    fun plain => ⟨setUp.places plain, plain.discards, plain.compactions⟩⟩

theorem sectorsAgree_hole : SectorsAgree holeImage :=
  (sectorsAgree_iff holeImage_opened.setUp).mpr
    (.inl ⟨by decide +kernel, by decide +kernel, by decide +kernel⟩)

/-- One block of two sectors of ones behind 512 bytes of extra data. -/
def extraHeader : VdiHeader := smallHeader 1024 1024 512 1 1

def extraImage : VdiImage := openedImage (imageFile extraHeader [0] 2560 fun _ => 1) {}

/-- The discard of the second sector clears the first. -/
theorem vdiDiscard_wrong_sector : vdiValidateHeader extraHeader = .vinfSuccess ∧
    extraImage.offStartBlockData = 512 ∧ HasSlot extraImage 0 0 ∧
    discardOffset extraImage 0 0 ≠ dataOffset extraImage 0 0 ∧
    content extraImage 0 = some 1 ∧
    (vdiDiscard extraImage 512 512 true).map (fun result =>
      (result.rc, content result.image 0, content result.image 512)) =
        some (.vinfSuccess, some 0, some 1) := by
  refine ⟨by decide +kernel, by decide +kernel, ⟨by decide +kernel, by decide +kernel⟩,
    by decide +kernel, by decide +kernel, by decide +kernel⟩

end VBox.Storage.Vdi
