import VBox.Lib.Run
import VBox.Storage.Vdi.TableInvariant

/-!
Runs of block table operations.

`TableInv.defined` says that a sound call never leaves the arrays it works on,
`run_blockTableOk` that every run of sound successful calls keeps the block
table, the reverse table and the image size consistent. Compaction is the
operation that is not sound in general: it frees and moves blocks without
touching `paBlocksRev` and `cbImage`.
-/

namespace VBox.Storage.Vdi

open VBox.Lib List Option

section Defined

variable {image : VdiImage}

theorem vdiBlockAllocUpdate_defined (inv : TableInv image) {uBlock : Nat} {file : ByteFile}
    (inside : uBlock < image.paBlocks.length)
    (room : getImageBlocksAllocated image.header < getImageBlocks image.header) :
    ∃ image', vdiBlockAllocUpdate { image with file := file }
      (getImageBlocksAllocated image.header) uBlock = some image' := by
  obtain ⟨rev, reverse, length, -⟩ := inv.reverse
  have entry : (allocDesc { image with file := file } (getImageBlocksAllocated image.header)
      uBlock).paBlocks[uBlock]? = some (getImageBlocksAllocated image.header) :=
    getElem?_set_self inside
  have fits : ¬ (image.paBlocksRev.any fun stored =>
      decide (stored.length ≤ getImageBlocksAllocated image.header)) = true := by
    rw [Option.any_eq_true]
    rintro ⟨stored, found, short⟩
    rw [reverse stored found, decide_eq_true_eq] at short
    omega
  unfold vdiBlockAllocUpdate
  rw [if_neg fits, vdiUpdateBlockInfoAsync_eq entry]
  exact ⟨_, rfl⟩

theorem TableInv.write_defined (inv : TableInv image) {uOffset cb : Nat} {data : Buf}
    {fNoAlloc : Bool} (sound : Sound image (.write uOffset cb data fNoAlloc)) :
    ∃ result, vdiWrite image uOffset cb data fNoAlloc = some result := by
  unfold vdiWrite
  split
  · exact ⟨_, rfl⟩
  rename_i writable
  split
  · exact ⟨_, rfl⟩
  rename_i nonempty
  have inside : blockIndex image uOffset < image.paBlocks.length :=
    inv.setUp.blockIndex_lt (lt_of_lt_of_le (by omega) sound.1)
  have entry := getElem?_eq_getElem inside
  dsimp only
  rw [entry]
  dsimp only
  split
  · rename_i unallocated
    split
    · exact ⟨_, rfl⟩
    rename_i keeps
    split
    · rename_i whole
      obtain ⟨room, -, -⟩ := sound.2 ⟨by simpa using writable, by simpa using whole.2, whole.1,
        _, entry, unallocated, by simpa using keeps⟩
      obtain ⟨image', update⟩ := vdiBlockAllocUpdate_defined inv inside room
      exact ⟨_, by rw [writeSlot, update]; rfl⟩
    · exact ⟨_, rfl⟩
  · exact ⟨_, rfl⟩

theorem TableInv.remove_defined (inv : TableInv image) (stored : image.paBlocksRev ≠ none)
    {uBlock ptrBlock : Nat} (slot : HasSlot image uBlock ptrBlock)
    (lastUsed : ∃ i, HasSlot image i (getImageBlocksAllocated image.header - 1)) :
    ∃ result, vdiDiscardBlockAsync image uBlock ptrBlock = some result := by
  obtain ⟨rev, tracks, length, indexes⟩ := inv.reverse
  obtain ⟨stored, reverse⟩ := ne_none_iff_exists'.mp stored
  cases tracks stored reverse
  obtain ⟨lastBlock, lastSlot⟩ := lastUsed
  have small := inv.slot_lt slot
  have fits := indexes.fits
  have back := indexes.back _ _ lastSlot.1 lastSlot.2
  obtain ⟨insideLast, -⟩ := List.getElem?_eq_some_iff.mp lastSlot.1
  obtain ⟨inside, -⟩ := List.getElem?_eq_some_iff.mp slot.1
  have lastIndex : idxLastBlock image = getImageBlocksAllocated image.header - 1 := by
    rw [idxLastBlock, if_neg (by omega)]
  rw [← lastIndex] at back
  -- the metadata update is defined on any file
  have update : ∀ file, ∃ image', discardUpdateMetadata { image with file := file } rev
      ⟨uBlock, ptrBlock, idxLastBlock image, lastBlock⟩ = some image' := by
    intro file
    unfold discardUpdateMetadata discardRedirect
    dsimp only
    split
    · simp only [bind_eq_bind, bind_some]
      rw [vdiUpdateBlockInfoAsync_eq (getElem?_set_self inside)]
      exact ⟨_, rfl⟩
    · have insideLast' : lastBlock < (image.paBlocks.set uBlock vdiImageBlockZero).length := by
        rw [length_set]
        exact insideLast
      have room : ptrBlock < (rev.set (idxLastBlock image) vdiImageBlockFree).length := by
        rw [length_set]
        omega
      have insideEntry : uBlock < ((image.paBlocks.set uBlock vdiImageBlockZero).set lastBlock
          ptrBlock).length := by
        rw [length_set, length_set]
        exact inside
      rw [if_pos ⟨insideLast', room⟩, vdiUpdateBlockInfoAsync_eq (getElem?_set_self insideLast')]
      simp only [map_some, bind_eq_bind, bind_some]
      rw [vdiUpdateBlockInfoAsync_eq (getElem?_eq_getElem insideEntry)]
      exact ⟨_, rfl⟩
  unfold vdiDiscardBlockAsync
  simp only [reverse, back, bind_eq_bind, bind_some]
  split
  · obtain ⟨image', run⟩ := update image.file
    exact ⟨_, by rw [run]; rfl⟩
  · cases read : image.file.read (idxLastBlock image * image.cbTotalBlockData + image.offStartData)
      image.cbTotalBlockData with
    | none => exact ⟨(.verrEof, image), by simp [discardMoveBlock, read]⟩
    | some pvBlock =>
      obtain ⟨image', run⟩ := update (image.file.write
        (ptrBlock * image.cbTotalBlockData + image.offStartData) image.cbTotalBlockData pvBlock)
      exact ⟨(.vinfSuccess, image'), by simp [discardMoveBlock, read, run]⟩

theorem TableInv.discard_defined (inv : TableInv image) (stored : image.paBlocksRev ≠ none)
    {uOffset cb : Nat} {fMarkUnused : Bool} (sound : Sound image (.discard uOffset cb fMarkUnused)) :
    ∃ result, vdiDiscard image uOffset cb fMarkUnused = some result := by
  obtain ⟨inDisk, gives, reads⟩ := sound
  unfold vdiDiscard
  split
  · exact ⟨_, rfl⟩
  split
  · exact ⟨_, rfl⟩
  rename_i accepted
  have inside : blockIndex image uOffset < image.paBlocks.length :=
    inv.setUp.blockIndex_lt (lt_of_lt_of_le (by omega) inDisk)
  have entry := getElem?_eq_getElem inside
  dsimp only
  rw [entry]
  dsimp only
  split
  · exact ⟨_, rfl⟩
  rename_i inUse
  have slot : HasSlot image (blockIndex image uOffset) _ := ⟨entry, not_not.mp inUse⟩
  have clip := inv.setUp.clip_le uOffset cb
  split
  · rename_i whole
    have full : clipToBlock image uOffset cb = getImageBlockSize image.header := by omega
    obtain ⟨result, run⟩ := inv.remove_defined stored slot (gives ⟨_, slot, Or.inl full⟩)
    exact ⟨_, by rw [run]; rfl⟩
  rename_i notWhole
  split
  · exact ⟨_, rfl⟩
  rename_i unmarked
  have unmarked : fMarkUnused = false := by simpa using unmarked
  have notFull : clipToBlock image uOffset cb ≠ getImageBlockSize image.header := by
    intro full
    have := inv.setUp.offset_of_clip_eq full
    rw [this, full] at notWhole
    simp at notWhole
  obtain ⟨noExtra, sectors⟩ := reads ⟨unmarked, notFull, _, slot⟩
  unfold discardPartial
  dsimp only
  rw [if_neg (not_not.mpr noExtra)]
  split
  · exact ⟨_, rfl⟩
  rename_i pbBlockData read
  obtain ⟨-, rfl⟩ := ByteFile.read_eq_some.mp read
  split
  · rename_i empty
    have gone : GivesSlot image uOffset cb fMarkUnused := by
      refine ⟨_, slot, Or.inr ⟨unmarked, fun i below outside => ?_⟩⟩
      have zero := Buf.isZero_iff.mp empty i below
      rw [clearRange, if_neg (by omega)] at zero
      exact zero
    obtain ⟨result, run⟩ := inv.remove_defined stored slot (gives gone)
    exact ⟨_, by rw [run]; rfl⟩
  · unfold vdiAllocationBitmapCreate
    rw [if_neg (not_not.mpr sectors)]
    exact ⟨_, rfl⟩

/-- A sound call is never undefined. -/
theorem TableInv.defined (inv : TableInv image) (stored : image.paBlocksRev ≠ none)
    {op : ImageOp} (sound : Sound image op) : ∃ result, op.exec image = some result := by
  cases op with
  | write uOffset cb data fNoAlloc =>
    obtain ⟨result, run⟩ := inv.write_defined sound
    exact ⟨_, by rw [ImageOp.exec, run]; rfl⟩
  | discard uOffset cb fMarkUnused =>
    obtain ⟨result, run⟩ := inv.discard_defined stored sound
    exact ⟨_, by rw [ImageOp.exec, run]; rfl⟩
  | compact host =>
    obtain ⟨rc, image', run, -, -⟩ := inv.compact sound
    exact ⟨_, run⟩
  | resize cbSize lchsGeometry => exact ⟨_, rfl⟩

end Defined

/-! ### Runs -/

variable {image' : VdiImage} {op : ImageOp}

/-- One sound call that returns success keeps the invariant. -/
theorem step_tableInv {image : VdiImage} (inv : TableInv image)
    (step : Guarded Sound Succeeds image op image') : TableInv image' := by
  obtain ⟨sound, success⟩ := step
  cases op with
  | write uOffset cb data fNoAlloc =>
    obtain ⟨result, run, final⟩ := map_eq_some_iff.mp success
    obtain ⟨rc, rfl⟩ := Prod.mk.inj final
    obtain ⟨writable, -, -, taken⟩ := vdiWrite_success run rc
    exact inv.write writable sound taken
  | discard uOffset cb fMarkUnused =>
    obtain ⟨result, run, final⟩ := map_eq_some_iff.mp success
    obtain ⟨rc, rfl⟩ := Prod.mk.inj final
    obtain ⟨-, -, -, -, taken⟩ := vdiDiscard_success run rc
    exact (inv.discard sound taken).1
  | compact host =>
    obtain ⟨rc, result, run, kept, -⟩ := inv.compact sound
    cases run.symm.trans success
    exact kept rfl
  | resize cbSize lchsGeometry => exact inv.resize sound (some.inj success)

/-! No call drops the reverse table. -/

variable {uOffset cb : Nat}

theorem WriteStep.keeps_reverse {image : VdiImage} {data : Buf} {fNoAlloc : Bool}
    (stored : image.paBlocksRev ≠ none) (step : WriteStep image uOffset cb data fNoAlloc image') :
    image'.paBlocksRev ≠ none := by
  cases step with
  | elided => exact stored
  | inPlace => exact stored
  | allocated entry _ _ _ _ update =>
    obtain ⟨inside, -⟩ := List.getElem?_eq_some_iff.mp entry
    obtain ⟨-, rfl⟩ := vdiBlockAllocUpdate_eq update inside
    simpa [allocDesc, writeSlot] using stored

theorem RemoveStep.keeps_reverse {image : VdiImage} {uBlock ptrBlock : Nat}
    (step : RemoveStep image uBlock ptrBlock image') : image'.paBlocksRev ≠ none := by
  cases step <;> exact some_ne_none _

theorem DiscardStep.keeps_reverse {image : VdiImage} {fMarkUnused : Bool}
    (stored : image.paBlocksRev ≠ none) (step : DiscardStep image uOffset cb fMarkUnused image') :
    image'.paBlocksRev ≠ none := by
  cases step with
  | unallocated => exact stored
  | zeroed => exact stored
  | whole _ _ _ remove => exact remove.keeps_reverse
  | emptied _ _ _ _ _ _ remove => exact remove.keeps_reverse

theorem step_keeps_reverse {image : VdiImage} (stored : image.paBlocksRev ≠ none)
    (inv : TableInv image) (step : Guarded Sound Succeeds image op image') :
    image'.paBlocksRev ≠ none := by
  obtain ⟨sound, success⟩ := step
  cases op with
  | write uOffset cb data fNoAlloc =>
    obtain ⟨result, run, final⟩ := map_eq_some_iff.mp success
    obtain ⟨rc, rfl⟩ := Prod.mk.inj final
    obtain ⟨-, -, -, taken⟩ := vdiWrite_success run rc
    exact taken.keeps_reverse stored
  | discard uOffset cb fMarkUnused =>
    obtain ⟨result, run, final⟩ := map_eq_some_iff.mp success
    obtain ⟨rc, rfl⟩ := Prod.mk.inj final
    obtain ⟨-, -, -, -, taken⟩ := vdiDiscard_success run rc
    exact taken.keeps_reverse stored
  | compact host =>
    obtain ⟨rc, result, run, -, kept⟩ := inv.compact sound
    cases run.symm.trans success
    rwa [kept]
  | resize cbSize lchsGeometry =>
    rwa [inv.resize_reverse sound (some.inj success)]

/-- An image opened for discarding satisfies the invariant as soon as the file
holds every allocated block. -/
theorem Opened.tableInv {file : ByteFile} {uOpenFlags : OpenFlags} {image : VdiImage}
    (opened : Opened file uOpenFlags image) (discard : uOpenFlags.discard = true)
    (held : ∀ i p, HasSlot image i p → slotEnd image p ≤ file.size) :
    TableInv image ∧ image.paBlocksRev ≠ none := by
  obtain ⟨rev, reverse, length, indexes⟩ := opened.rev_some discard
  refine ⟨⟨opened.setUp, ⟨rev, ?_, length.ge, indexes⟩, fun i p slot => ?_⟩, ?_⟩
  · intro stored found
    rw [reverse] at found
    exact (some.inj found).symm
  · rw [opened.cbImage_eq]
    exact held i p slot
  · rw [reverse]
    exact some_ne_none _

/-- A read of an allocated block is never out of range. -/
theorem TableInv.read_inRange {image : VdiImage} (inv : TableInv image) {uOffset cb : Nat}
    {result : ReadResult} (run : vdiRead image uOffset cb = some result) {p : Nat}
    (slot : HasSlot image (blockIndex image uOffset) p) : result.rc ≠ .verrVdReadOutOfRange := by
  unfold vdiRead at run
  split at run
  · cases run
    simp
  dsimp only at run
  rw [slot.1] at run
  dsimp only at run
  split at run
  · cases run
    simp
  split at run
  · cases run
    simp
  split at run
  · split at run <;> cases run <;> simp
  · rename_i outside
    have covered := inv.covered _ p slot
    have clip := inv.setUp.clip_le uOffset cb
    have wrapped := u32_le (image.offStartData + image.offStartBlockData +
      blockOffset image uOffset)
    unfold dataOffset at outside
    unfold slotEnd at covered
    omega

/-- The block table is right: (a) the slots in use are pairwise different and
below `cBlocksAllocated`, which is at most `cBlocks`; (b) the reverse table has
an entry for each slot, names the block of every slot in use and is FREE
elsewhere; (c) the image covers every allocated block, so that no read of one
is out of range and no discard cuts one off. -/
structure BlockTableOk (image : VdiImage) : Prop where
  distinct : ∀ i j p, HasSlot image i p → HasSlot image j p → i = j
  below : ∀ i p, HasSlot image i p → p < getImageBlocksAllocated image.header
  count : getImageBlocksAllocated image.header ≤ getImageBlocks image.header
  reverse : ∃ rev, image.paBlocksRev = some rev ∧ getImageBlocks image.header ≤ rev.length ∧
    (∀ i p, HasSlot image i p → rev[p]? = some i) ∧
    ∀ p < getImageBlocks image.header, (∀ i, ¬ HasSlot image i p) →
      rev[p]? = some vdiImageBlockFree
  covered : ∀ i p, HasSlot image i p → slotEnd image p ≤ image.cbImage
  reads : ∀ uOffset cb result p, vdiRead image uOffset cb = some result →
    HasSlot image (blockIndex image uOffset) p → result.rc ≠ .verrVdReadOutOfRange
  discards : ∀ uOffset cb fMarkUnused result,
    Sound image (.discard uOffset cb fMarkUnused) →
    vdiDiscard image uOffset cb fMarkUnused = some result → result.rc = .vinfSuccess →
    image.file.size ≤ result.image.file.size ∨
      ∀ i p, HasSlot result.image i p → slotEnd result.image p ≤ result.image.file.size

theorem TableInv.blockTableOk {image : VdiImage} (inv : TableInv image)
    (stored : image.paBlocksRev ≠ none) : BlockTableOk image := by
  obtain ⟨rev, tracks, length, indexes⟩ := inv.reverse
  obtain ⟨stored, reverse⟩ := ne_none_iff_exists'.mp stored
  cases tracks stored reverse
  constructor
  · intro i j p left right
    exact indexes.distinct left.1 right.1 left.2
  · intro i p slot
    exact inv.slot_lt slot
  · exact inv.setUp.valid.allocated
  · refine ⟨rev, reverse, length, fun i p slot => indexes.back i p slot.1 slot.2, ?_⟩
    intro p below unused
    exact indexes.spare p (lt_of_lt_of_le below length) fun i entry inUse =>
      unused i ⟨entry, inUse⟩
  · exact inv.covered
  · intro uOffset cb result p run slot
    exact inv.read_inRange run slot
  · intro uOffset cb fMarkUnused result sound run success
    obtain ⟨-, -, -, -, step⟩ := vdiDiscard_success run success
    exact (inv.discard sound step).2

/-- In every run of sound calls that return success, from any image opened for
discarding whose file holds every allocated block, every state reached has a
right block table, and no sound call is undefined there. -/
theorem run_blockTableOk {file : ByteFile} {uOpenFlags : OpenFlags} {image image' : VdiImage}
    {ops : List ImageOp} (opened : vdiOpenImage file uOpenFlags = .ok image)
    (discard : uOpenFlags.discard = true)
    (held : ∀ i p, HasSlot image i p → slotEnd image p ≤ file.size)
    (run : Run (Guarded Sound Succeeds) image ops image') :
    BlockTableOk image' ∧ ∀ op, Sound image' op → ∃ result, op.exec image' = some result := by
  have start := (vdiOpenImage_opened opened).tableInv discard held
  have inv := run.invariant (fun image => TableInv image ∧ image.paBlocksRev ≠ none)
    (fun kept step => ⟨step_tableInv kept.1 step, step_keeps_reverse kept.2 kept.1 step⟩) start
  exact ⟨inv.1.blockTableOk inv.2, fun op sound => inv.1.defined inv.2 sound⟩

/-! ### Concrete runs -/

/-- Open flags of an image that may be discarded from. -/
def discardFlags : OpenFlags := { discard := true }

/-- A two-block image whose block 0 has slot 0, filled with `fill`. -/
def oneBlockFile (fill : UInt8) : ByteFile :=
  imageFile (smallHeader 1024 512 0 2 1) [0, vdiImageBlockFree] 1536 fun _ => fill

/-- A compaction without parent, range query, progress callback or I/O error. -/
def quietHost : CompactHost := ⟨fun _ => false, none, none, none⟩

theorem succeeds_of_status {image : VdiImage}
    (status : (op.exec image).map Prod.fst = some .vinfSuccess) :
    ∃ image', Succeeds image op image' := by
  obtain ⟨⟨rc, image'⟩, run, rfl⟩ := map_eq_some_iff.mp status
  exact ⟨image', run⟩

theorem held_oneBlock (fill : UInt8) {image : VdiImage} {i p : Nat}
    (table : image.paBlocks = [0, vdiImageBlockFree])
    (fits : slotEnd image 0 ≤ (oneBlockFile fill).size) (slot : HasSlot image i p) :
    slotEnd image p ≤ (oneBlockFile fill).size := by
  obtain ⟨entry, inUse⟩ := slot
  rw [table] at entry
  match i, entry with
  | 0, entry =>
    cases entry
    exact fits
  | 1, entry =>
    cases entry
    exact absurd inUse not_isAllocated_free

/-- A sound run: block 1 is written and takes slot 1. -/
theorem run_blockTableOk_write : ∃ image',
    Run (Guarded Sound Succeeds) (openedImage (oneBlockFile 1) discardFlags)
      [.write 512 512 (fun _ => 1) false] image' ∧
    BlockTableOk image' ∧ ∀ op, Sound image' op → ∃ result, op.exec image' = some result := by
  obtain ⟨image', success⟩ := succeeds_of_status
    (show ((ImageOp.write 512 512 (fun _ => 1) false).exec
      (openedImage (oneBlockFile 1) discardFlags)).map Prod.fst = some .vinfSuccess by
        decide +kernel)
  have sound : Sound (openedImage (oneBlockFile 1) discardFlags)
      (.write 512 512 (fun _ => 1) false) := ⟨by decide +kernel, fun _ => by decide +kernel⟩
  have run : Run (Guarded Sound Succeeds) (openedImage (oneBlockFile 1) discardFlags)
      [.write 512 512 (fun _ => 1) false] image' := .single ⟨sound, success⟩
  exact ⟨image', run, run_blockTableOk (openedImage_eq (by decide +kernel)) rfl
    (fun _ _ slot => held_oneBlock 1 (by decide +kernel) (by decide +kernel) slot) run⟩

/-- A compaction that frees a block of zeros leaves `paBlocksRev` as it was: the
reverse table still names block 0 for slot 0, which no block has any more. -/
theorem compact_stale_reverse :
    vdiOpenImage (oneBlockFile 0) discardFlags = .ok (openedImage (oneBlockFile 0) discardFlags) ∧
    (∀ i p, HasSlot (openedImage (oneBlockFile 0) discardFlags) i p →
      slotEnd (openedImage (oneBlockFile 0) discardFlags) p ≤ (oneBlockFile 0).size) ∧
    ∃ image', Run Succeeds (openedImage (oneBlockFile 0) discardFlags) [.compact quietHost] image' ∧
      ¬ BlockTableOk image' := by
  refine ⟨openedImage_eq (by decide +kernel),
    fun _ _ slot => held_oneBlock 0 (by decide +kernel) (by decide +kernel) slot, ?_⟩
  have tables : (vdiCompact (openedImage (oneBlockFile 0) discardFlags) quietHost).map
      (fun r => (r.1, r.2.paBlocks, r.2.paBlocksRev, getImageBlocks r.2.header)) =
        some (.vinfSuccess, [vdiImageBlockZero, vdiImageBlockFree],
          some [0, vdiImageBlockFree], 2) := by
    decide +kernel
  obtain ⟨⟨rc, image'⟩, run, final⟩ := map_eq_some_iff.mp tables
  simp only [Prod.mk.injEq] at final
  obtain ⟨rfl, table, reverse, blocks⟩ := final
  refine ⟨image', Run.single run, fun ok => ?_⟩
  obtain ⟨rev, found, -, -, spare⟩ := ok.reverse
  rw [reverse] at found
  cases found
  have unused : ∀ i, ¬ HasSlot image' i 0 := by
    rintro i ⟨entry, -⟩
    rw [table] at entry
    match i, entry with
    | 0, entry => cases entry
    | 1, entry => cases entry
  have free := spare 0 (by rw [blocks]; decide) unused
  cases free

end VBox.Storage.Vdi
