import VBox.Storage.Vdi.Access

/-!
`vdiDiscard`: giving a block back to the image.

A whole block, or a block left with zeros only, loses its slot: the last block
of the file moves into the hole (`vdiDiscardBlockAsync` and its state machine)
and the file shrinks by one block. A partial discard either zeroes the range
(`VD_DISCARD_MARK_UNUSED`) or reports which sectors of the block still hold
data. `vdiDiscard_success` and `vdiDiscardBlockAsync_success` list everything a
successful call can have done.
-/

namespace VBox.Storage.Vdi

open VBox.Lib Option

/-! ### The allocation bitmap -/

/-- `ASMBitFirstSet`, by the byte its bit lies in. -/
def firstNonZero (b : Buf) : Nat → Nat → Option Nat
  | 0, _ => none
  | n + 1, i => if b i ≠ 0 then some i else firstNonZero b n (i + 1)

/-- The loop of `vdiAllocationBitmapCreate`: find the next sector with data,
mark it, go on behind it. -/
def allocationBitmapLoop (pvData : Buf) (cSectors : Nat) :
    Nat → Nat → Nat → (Nat → Bool) → Nat → Bool
  | 0, _, _, bm => bm
  | rounds + 1, uSectorCur, cbData, bm =>
      if uSectorCur < cSectors then
        match firstNonZero (pvData.drop (uSectorCur * 512)) cbData 0 with
        | none => bm
        | some idxByte =>
            let idxSectorAlloc := idxByte / 512
            allocationBitmapLoop pvData cSectors rounds (uSectorCur + idxSectorAlloc + 1)
              (cbData - (idxSectorAlloc + 1) * 512)
              fun s => s == uSectorCur + idxSectorAlloc || bm s
      else bm

/-- `vdiAllocationBitmapCreate`: the sectors that hold data. The buffer has
`cSectors / 8` bytes, so a sector count that is no multiple of 8 is written
over its end. -/
def vdiAllocationBitmapCreate (pvData : Buf) (cbData : Nat) : Option (Nat → Bool) :=
  if cbData / 512 % 8 ≠ 0 then none
  else some (allocationBitmapLoop pvData (cbData / 512) (cbData / 512) 0 cbData fun _ => false)

/-! ### Removing a block -/

/-- `VDIBLOCKDISCARDASYNC` while a block moves. -/
structure BlockDiscard where
  uBlock : Nat
  ptrBlockDiscard : Nat
  idxLastBlock : Nat
  uBlockLast : Nat

/-- `vdiDiscardBlockAsyncUpdate`, states READ_BLOCK and WRITE_BLOCK: copy the
last block of the file over the discarded one. -/
def discardMoveBlock (image : VdiImage) (discard : BlockDiscard) : Status × VdiImage :=
  match image.file.read (discard.idxLastBlock * image.cbTotalBlockData + image.offStartData)
      image.cbTotalBlockData with
  | none => (.verrEof, image)
  | some pvBlock =>
      (.vinfSuccess, { image with
        file := image.file.write
          (discard.ptrBlockDiscard * image.cbTotalBlockData + image.offStartData)
          image.cbTotalBlockData pvBlock })

/-- Redirect the moved block to its new slot and save its entry. -/
def discardRedirect (image : VdiImage) (paBlocksRev : List Nat) (discard : BlockDiscard) :
    Option (VdiImage × List Nat) :=
  if discard.idxLastBlock = discard.ptrBlockDiscard then some (image, paBlocksRev)
  else if discard.uBlockLast < image.paBlocks.length ∧
      discard.ptrBlockDiscard < paBlocksRev.length then
    (vdiUpdateBlockInfoAsync
      { image with paBlocks := image.paBlocks.set discard.uBlockLast discard.ptrBlockDiscard }
      discard.uBlockLast false).map fun image =>
        (image, paBlocksRev.set discard.ptrBlockDiscard discard.uBlockLast)
  else none

/-- `vdiDiscardBlockAsyncUpdate`, state UPDATE_METADATA. -/
def discardUpdateMetadata (image : VdiImage) (paBlocksRev : List Nat) (discard : BlockDiscard) :
    Option VdiImage := do
  let (image, rev) ← discardRedirect
    { image with paBlocks := image.paBlocks.set discard.uBlock vdiImageBlockZero }
    (paBlocksRev.set discard.idxLastBlock vdiImageBlockFree) discard
  let image := { image with
    paBlocksRev := some rev
    header := setImageBlocksAllocated discard.idxLastBlock image.header }
  let image ← vdiUpdateBlockInfoAsync image discard.uBlock true
  let cbImage := u64Sub image.cbImage image.cbTotalBlockData
  return { image with cbImage := cbImage, file := image.file.setSize cbImage }

/-- `idxLastBlock`: the last slot of the file, `cBlocksAllocated - 1` as `unsigned`. -/
def idxLastBlock (image : VdiImage) : Nat :=
  if getImageBlocksAllocated image.header = 0 then 2 ^ 32 - 1
  else getImageBlocksAllocated image.header - 1

/-- `vdiDiscardBlockAsync`, with the state machine run to its end. Without a
reverse table, or with nothing allocated, the reverse lookup is undefined. -/
def vdiDiscardBlockAsync (image : VdiImage) (uBlock ptrBlock : Nat) :
    Option (Status × VdiImage) := do
  let rev ← image.paBlocksRev
  let uBlockLast ← rev[idxLastBlock image]?
  let discard : BlockDiscard := ⟨uBlock, ptrBlock, idxLastBlock image, uBlockLast⟩
  if discard.idxLastBlock = ptrBlock then
    (discardUpdateMetadata image rev discard).map fun image => (.vinfSuccess, image)
  else
    let (rc, image) := discardMoveBlock image discard
    if rc ≠ .vinfSuccess then return (rc, image)
    else (discardUpdateMetadata image rev discard).map fun image => (.vinfSuccess, image)

/-! ### The operation -/

/-- What `vdiDiscard` hands back. -/
structure DiscardResult where
  rc : Status
  pcbPreAllocated : Option Nat
  pcbPostAllocated : Option Nat
  pcbActuallyDiscarded : Option Nat
  pbmAllocationBitmap : Option (Nat → Bool)
  image : VdiImage

/-- A block buffer after the range of the discard was cleared. -/
def clearRange (pbBlockData : Buf) (offDiscard cbDiscard : Nat) : Buf :=
  fun i => if offDiscard ≤ i ∧ i < offDiscard + cbDiscard then 0 else pbBlockData i

/-- The result of a discard that answers for the clipped range only. -/
def discardDone (cbDiscard : Nat) (outcome : Status × VdiImage) : DiscardResult :=
  ⟨outcome.1, some 0, some 0, some cbDiscard, none, outcome.2⟩

/-- How many bytes of a block `ASMBitFirstSet` looks at: it takes the count of
bits as a `uint32_t`, in which the bits of 512 MB and more do not fit. -/
def cbTested (cbBlock : Nat) : Nat := u32 (cbBlock * 8) / 8

theorem cbTested_of_small {cbBlock : Nat} (small : cbBlock < 2 ^ 29) :
    cbTested cbBlock = cbBlock := by
  rw [cbTested, u32_of_lt (by omega)]
  omega

/-- The partial discard without `VD_DISCARD_MARK_UNUSED`: read the block, clear
the range, and drop the block if nothing but zeros is left. The read puts
`cbTotalBlockData` bytes behind the first `offStartBlockData` bytes of a buffer
of `cbTotalBlockData` bytes, which overflows unless the latter is zero. -/
def discardPartial (image : VdiImage) (uBlock ptrBlock offDiscard cbDiscard : Nat) :
    Option DiscardResult :=
  let cbBlock := getImageBlockSize image.header
  if image.offStartBlockData ≠ 0 then none
  else
    match image.file.read (ptrBlock * image.cbTotalBlockData + image.offStartData)
        image.cbTotalBlockData with
    | none => some (discardDone cbDiscard (.verrEof, image))
    | some pbBlockData =>
        let cleared := clearRange pbBlockData offDiscard cbDiscard
        if cleared.isZero (cbTested cbBlock) then
          (vdiDiscardBlockAsync image uBlock ptrBlock).map (discardDone cbDiscard)
        else
          (vdiAllocationBitmapCreate cleared cbBlock).map fun bm =>
            ⟨.verrVdDiscardAlignmentNotMet, some (offDiscard % cbBlock),
              some (cbBlock - cbDiscard - offDiscard % cbBlock), some cbDiscard, some bm, image⟩

/-- `vdiDiscard`. -/
def vdiDiscard (image : VdiImage) (uOffset cbDiscard : Nat) (fMarkUnused : Bool) :
    Option DiscardResult :=
  if image.uOpenFlags.readOnly then some ⟨.verrVdImageReadOnly, none, none, none, none, image⟩
  else if getImageDiskSize image.header < u64 (uOffset + cbDiscard) ∨ cbDiscard = 0 then
    some ⟨.verrInvalidParameter, none, none, none, none, image⟩
  else
    let uBlock := blockIndex image uOffset
    let offDiscard := blockOffset image uOffset
    let cbDiscard := clipToBlock image uOffset cbDiscard
    match image.paBlocks[uBlock]? with
    | none => none
    | some ptrBlock =>
        let cbPreAllocated := offDiscard % getImageBlockSize image.header
        let cbPostAllocated := getImageBlockSize image.header - cbDiscard - cbPreAllocated
        if ¬ IsAllocated ptrBlock then some (discardDone cbDiscard (.vinfSuccess, image))
        else if cbPreAllocated = 0 ∧ cbPostAllocated = 0 then
          (vdiDiscardBlockAsync image uBlock ptrBlock).map (discardDone cbDiscard)
        else if fMarkUnused then
          some (discardDone cbDiscard (.vinfSuccess, { image with
            file := image.file.write
              (ptrBlock * image.cbTotalBlockData + image.offStartData + offDiscard) cbDiscard
              fun _ => 0 }))
        else discardPartial image uBlock ptrBlock offDiscard cbDiscard

/-! ### What a successful call has done -/

/-- The image after the last slot was taken away from block `uBlock`. -/
def dropDesc (image : VdiImage) (rev : List Nat) (uBlock last : Nat) : VdiImage :=
  { image with
    paBlocks := image.paBlocks.set uBlock vdiImageBlockZero
    paBlocksRev := some (rev.set last vdiImageBlockFree)
    header := setImageBlocksAllocated last image.header
    cbImage := u64Sub image.cbImage image.cbTotalBlockData }

/-- The table changes of a removal that moves block `uBlockLast` into the hole. -/
def moveDesc (image : VdiImage) (rev : List Nat) (uBlock ptrBlock last uBlockLast : Nat) :
    VdiImage :=
  { image with
    paBlocks := (image.paBlocks.set uBlock vdiImageBlockZero).set uBlockLast ptrBlock
    paBlocksRev := some ((rev.set last vdiImageBlockFree).set ptrBlock uBlockLast)
    header := setImageBlocksAllocated last image.header
    cbImage := u64Sub image.cbImage image.cbTotalBlockData }

/-- Header and entry of the removed block saved, file cut to the new size. -/
def removeFile (image : VdiImage) (file : ByteFile) (uBlock entry last : Nat) : ByteFile :=
  ((file.write sizeofPreHeader
      (headerBytes (setImageBlocksAllocated last image.header)).1
      (headerBytes (setImageBlocksAllocated last image.header)).2).write
    (image.offStartBlocks + uBlock * 4) 4 (leByte entry)).setSize
    (u64Sub image.cbImage image.cbTotalBlockData)

/-- The last block copied into the hole. -/
def copyFile (image : VdiImage) (ptrBlock last : Nat) : ByteFile :=
  image.file.write (ptrBlock * image.cbTotalBlockData + image.offStartData) image.cbTotalBlockData
    (image.file.byte.drop (last * image.cbTotalBlockData + image.offStartData))

/-- The last block copied into the hole and its new entry saved. -/
def movedFile (image : VdiImage) (ptrBlock last uBlockLast : Nat) : ByteFile :=
  (copyFile image ptrBlock last).write (image.offStartBlocks + uBlockLast * 4) 4 (leByte ptrBlock)

/-- Everything a successful `vdiDiscardBlockAsync` can have done. -/
inductive RemoveStep (image : VdiImage) (uBlock ptrBlock : Nat) : VdiImage → Prop where
  /-- the block was the last of the file -/
  | last {rev : List Nat} {uBlockLast : Nat}
      (reverse : image.paBlocksRev = some rev)
      (index : ptrBlock = idxLastBlock image)
      (back : rev[ptrBlock]? = some uBlockLast) :
      RemoveStep image uBlock ptrBlock { dropDesc image rev uBlock ptrBlock with
        file := removeFile image image.file uBlock vdiImageBlockZero ptrBlock }
  /-- the last block of the file moved into the hole -/
  | moved {rev : List Nat} {last uBlockLast entry : Nat}
      (reverse : image.paBlocksRev = some rev)
      (index : last = idxLastBlock image)
      (back : rev[last]? = some uBlockLast)
      (different : last ≠ ptrBlock)
      (fits : last * image.cbTotalBlockData + image.offStartData + image.cbTotalBlockData ≤
        image.file.size)
      (inside : uBlockLast < image.paBlocks.length) (room : ptrBlock < rev.length)
      (saved : ((image.paBlocks.set uBlock vdiImageBlockZero).set uBlockLast ptrBlock)[uBlock]? =
        some entry) :
      RemoveStep image uBlock ptrBlock { moveDesc image rev uBlock ptrBlock last uBlockLast with
        file := removeFile image (movedFile image ptrBlock last uBlockLast) uBlock entry last }

section

variable (image : VdiImage) (discard : BlockDiscard) {image' : VdiImage} {rev : List Nat}
  (inside : discard.uBlock < image.paBlocks.length)

include image discard inside

theorem discardUpdateMetadata_last (same : discard.idxLastBlock = discard.ptrBlockDiscard)
    (run : discardUpdateMetadata image rev discard = some image') :
    image' = { dropDesc image rev discard.uBlock discard.idxLastBlock with
      file := removeFile image image.file discard.uBlock vdiImageBlockZero
        discard.idxLastBlock } := by
  rw [discardUpdateMetadata, discardRedirect, if_pos same] at run
  simp only [bind_eq_bind, bind_some] at run
  rw [vdiUpdateBlockInfoAsync_eq (List.getElem?_set_self inside)] at run
  exact (some.inj run).symm

theorem discardUpdateMetadata_moved (different : discard.idxLastBlock ≠ discard.ptrBlockDiscard)
    (run : discardUpdateMetadata image rev discard = some image') : ∃ entry,
      ((image.paBlocks.set discard.uBlock vdiImageBlockZero).set discard.uBlockLast
        discard.ptrBlockDiscard)[discard.uBlock]? = some entry ∧
      discard.uBlockLast < image.paBlocks.length ∧ discard.ptrBlockDiscard < rev.length ∧
      image' = { moveDesc image rev discard.uBlock discard.ptrBlockDiscard discard.idxLastBlock
          discard.uBlockLast with
        file := removeFile image
          (image.file.write (image.offStartBlocks + discard.uBlockLast * 4) 4
            (leByte discard.ptrBlockDiscard)) discard.uBlock entry discard.idxLastBlock } := by
  rw [discardUpdateMetadata, discardRedirect, if_neg different] at run
  split at run
  · rename_i bounds
    obtain ⟨insideLast, room⟩ := bounds
    rw [List.length_set] at insideLast room
    rw [vdiUpdateBlockInfoAsync_eq (List.getElem?_set_self (by simpa using insideLast))] at run
    simp only [map_some, bind_eq_bind, bind_some] at run
    have insideEntry : discard.uBlock < ((image.paBlocks.set discard.uBlock
        vdiImageBlockZero).set discard.uBlockLast discard.ptrBlockDiscard).length := by
      simpa using inside
    have saved := List.getElem?_eq_getElem insideEntry
    rw [vdiUpdateBlockInfoAsync_eq saved] at run
    exact ⟨_, saved, insideLast, room, (some.inj run).symm⟩
  · cases run

end

variable {image image' : VdiImage} {uBlock ptrBlock : Nat}

theorem vdiDiscardBlockAsync_success (inside : uBlock < image.paBlocks.length)
    (run : vdiDiscardBlockAsync image uBlock ptrBlock = some (.vinfSuccess, image')) :
    RemoveStep image uBlock ptrBlock image' := by
  unfold vdiDiscardBlockAsync at run
  simp only [bind_eq_bind, bind_eq_some_iff] at run
  obtain ⟨rev, reverse, uBlockLast, back, run⟩ := run
  split at run
  · rename_i same
    obtain ⟨result, update, final⟩ := map_eq_some_iff.mp run
    cases final
    have finished := discardUpdateMetadata_last image
      ⟨uBlock, ptrBlock, idxLastBlock image, uBlockLast⟩ inside same update
    dsimp only at finished same
    rw [same] at back finished
    rw [finished]
    exact .last reverse same.symm back
  · rename_i different
    cases moved : image.file.read (idxLastBlock image * image.cbTotalBlockData +
        image.offStartData) image.cbTotalBlockData with
    | none =>
      simp only [discardMoveBlock, moved] at run
      cases run
    | some pvBlock =>
      obtain ⟨fits, rfl⟩ := ByteFile.read_eq_some.mp moved
      simp only [discardMoveBlock, moved] at run
      obtain ⟨result, update, final⟩ := map_eq_some_iff.mp run
      cases final
      obtain ⟨entry, saved, insideLast, room, rfl⟩ :=
        discardUpdateMetadata_moved { image with file := copyFile image ptrBlock (idxLastBlock image) }
          ⟨uBlock, ptrBlock, idxLastBlock image, uBlockLast⟩ inside different update
      exact .moved reverse rfl back different fits insideLast room saved

/-- Everything a successful `vdiDiscard` can have done. -/
inductive DiscardStep (image : VdiImage) (uOffset cb : Nat) (fMarkUnused : Bool) :
    VdiImage → Prop where
  /-- nothing to do for a block without a slot -/
  | unallocated {ptrBlock : Nat}
      (entry : image.paBlocks[blockIndex image uOffset]? = some ptrBlock)
      (unused : ¬ IsAllocated ptrBlock) :
      DiscardStep image uOffset cb fMarkUnused image
  /-- a whole block loses its slot -/
  | whole {ptrBlock : Nat} {image' : VdiImage}
      (entry : image.paBlocks[blockIndex image uOffset]? = some ptrBlock)
      (inUse : IsAllocated ptrBlock)
      (full : clipToBlock image uOffset cb = getImageBlockSize image.header)
      (remove : RemoveStep image (blockIndex image uOffset) ptrBlock image') :
      DiscardStep image uOffset cb fMarkUnused image'
  /-- the range of a block is overwritten with zeros -/
  | zeroed {ptrBlock : Nat}
      (entry : image.paBlocks[blockIndex image uOffset]? = some ptrBlock)
      (inUse : IsAllocated ptrBlock)
      (marked : fMarkUnused = true) :
      DiscardStep image uOffset cb fMarkUnused { image with
        file := image.file.write
          (ptrBlock * image.cbTotalBlockData + image.offStartData + blockOffset image uOffset)
          (clipToBlock image uOffset cb) fun _ => 0 }
  /-- a block without data outside the range loses its slot -/
  | emptied {ptrBlock : Nat} {image' : VdiImage}
      (entry : image.paBlocks[blockIndex image uOffset]? = some ptrBlock)
      (inUse : IsAllocated ptrBlock)
      (unmarked : fMarkUnused = false)
      (noExtra : image.offStartBlockData = 0)
      (fits : ptrBlock * image.cbTotalBlockData + image.offStartData + image.cbTotalBlockData ≤
        image.file.size)
      (empty : ∀ i < cbTested (getImageBlockSize image.header),
        i < blockOffset image uOffset ∨
            blockOffset image uOffset + clipToBlock image uOffset cb ≤ i →
          image.file.byte (ptrBlock * image.cbTotalBlockData + image.offStartData + i) = 0)
      (remove : RemoveStep image (blockIndex image uOffset) ptrBlock image') :
      DiscardStep image uOffset cb fMarkUnused image'

variable {uOffset cb : Nat} {fMarkUnused : Bool} {result : DiscardResult}

theorem vdiDiscard_success (run : vdiDiscard image uOffset cb fMarkUnused = some result)
    (success : result.rc = .vinfSuccess) : image.uOpenFlags.readOnly = false ∧ 0 < cb ∧
      u64 (uOffset + cb) ≤ getImageDiskSize image.header ∧
      result.pcbActuallyDiscarded = some (clipToBlock image uOffset cb) ∧
      DiscardStep image uOffset cb fMarkUnused result.image := by
  unfold vdiDiscard at run
  split at run
  · cases run
    cases success
  rename_i writable
  split at run
  · cases run
    cases success
  rename_i accepted
  have notReadOnly : image.uOpenFlags.readOnly = false := by simpa using writable
  have positive : 0 < cb := by omega
  have inDisk : u64 (uOffset + cb) ≤ getImageDiskSize image.header := by omega
  dsimp only at run
  split at run
  · cases run
  rename_i ptrBlock entry
  have inside := (List.getElem?_eq_some_iff.mp entry).choose
  split at run
  · rename_i unused
    cases run
    exact ⟨notReadOnly, positive, inDisk, rfl, .unallocated entry unused⟩
  rename_i inUse
  have inUse := not_not.mp inUse
  split at run
  · rename_i full
    have full : clipToBlock image uOffset cb = getImageBlockSize image.header := by
      have atMost : clipToBlock image uOffset cb ≤ getImageBlockSize image.header :=
        (Nat.min_le_right _ _).trans (Nat.sub_le _ _)
      omega
    obtain ⟨⟨rc, image'⟩, removed, rfl⟩ := map_eq_some_iff.mp run
    cases success
    exact ⟨notReadOnly, positive, inDisk, rfl,
      .whole entry inUse full (vdiDiscardBlockAsync_success inside removed)⟩
  split at run
  · rename_i marked
    cases run
    exact ⟨notReadOnly, positive, inDisk, rfl, .zeroed entry inUse marked⟩
  rename_i unmarked
  unfold discardPartial at run
  dsimp only at run
  split at run
  · cases run
  rename_i noExtra
  split at run
  · cases run
    cases success
  rename_i pbBlockData read
  obtain ⟨fits, rfl⟩ := ByteFile.read_eq_some.mp read
  split at run
  · rename_i empty
    obtain ⟨⟨rc, image'⟩, removed, rfl⟩ := map_eq_some_iff.mp run
    cases success
    refine ⟨notReadOnly, positive, inDisk, rfl, .emptied entry inUse
      (by simpa using unmarked) (not_not.mp noExtra) fits ?_
      (vdiDiscardBlockAsync_success inside removed)⟩
    intro i below outside
    have zero := Buf.isZero_iff.mp empty i below
    unfold clearRange at zero
    rw [if_neg (by omega)] at zero
    exact zero
  · obtain ⟨bm, -, rfl⟩ := map_eq_some_iff.mp run
    cases success

/-- A removal that does not succeed leaves the image as it is: only reading the
last block can fail. -/
theorem vdiDiscardBlockAsync_failure {rc : Status}
    (run : vdiDiscardBlockAsync image uBlock ptrBlock = some (rc, image'))
    (failure : rc ≠ .vinfSuccess) : image' = image := by
  unfold vdiDiscardBlockAsync at run
  simp only [bind_eq_bind, bind_eq_some_iff] at run
  obtain ⟨rev, -, uBlockLast, -, run⟩ := run
  split at run
  · obtain ⟨result, -, final⟩ := map_eq_some_iff.mp run
    cases final
    exact absurd rfl failure
  · cases moved : image.file.read (idxLastBlock image * image.cbTotalBlockData +
        image.offStartData) image.cbTotalBlockData with
    | none =>
      simp only [discardMoveBlock, moved] at run
      cases run
      rfl
    | some pvBlock =>
      simp only [discardMoveBlock, moved] at run
      obtain ⟨result, -, final⟩ := map_eq_some_iff.mp run
      cases final
      exact absurd rfl failure

/-- A discard that does not succeed leaves the image as it is. -/
theorem vdiDiscard_failure (run : vdiDiscard image uOffset cb fMarkUnused = some result)
    (failure : result.rc ≠ .vinfSuccess) : result.image = image := by
  unfold vdiDiscard at run
  split at run
  · cases run
    rfl
  split at run
  · cases run
    rfl
  dsimp only at run
  split at run
  · cases run
  split at run
  · cases run
    rfl
  split at run
  · obtain ⟨⟨rc, image'⟩, removed, rfl⟩ := map_eq_some_iff.mp run
    exact vdiDiscardBlockAsync_failure removed failure
  split at run
  · cases run
    exact absurd rfl failure
  unfold discardPartial at run
  dsimp only at run
  split at run
  · cases run
  split at run
  · cases run
    rfl
  split at run
  · obtain ⟨⟨rc, image'⟩, removed, rfl⟩ := map_eq_some_iff.mp run
    exact vdiDiscardBlockAsync_failure removed failure
  · obtain ⟨bm, -, rfl⟩ := map_eq_some_iff.mp run
    rfl

end VBox.Storage.Vdi
