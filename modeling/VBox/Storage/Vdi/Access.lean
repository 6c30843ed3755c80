import VBox.Storage.Vdi.Image

/-!
`vdiRead`, `vdiWrite` and the allocation callback `vdiBlockAllocUpdate`.

A request names a virtual offset; the functions clip it to the rest of its
block, look the block up in `paBlocks` and go to the slot the entry names. The
spec lemmas `vdiWrite_success` and `vdiRead_cases` say once what each function
can do; everything later about reading and writing goes through them.
-/

namespace VBox.Storage.Vdi

open VBox.Lib

/-- `uBlock`: the block a virtual offset lies in. -/
def blockIndex (image : VdiImage) (uOffset : Nat) : Nat :=
  u32 (uOffset >>> image.uShiftOffset2Index)

/-- `offRead`, `offWrite`, `offDiscard`: the offset inside the block. -/
def blockOffset (image : VdiImage) (uOffset : Nat) : Nat := u32 uOffset &&& image.uBlockMask

/-- The length of a request clipped to the rest of its block. -/
def clipToBlock (image : VdiImage) (uOffset cb : Nat) : Nat :=
  min cb (getImageBlockSize image.header - blockOffset image uOffset)

/-- `u64Offset` of `vdiRead` and `vdiWrite`: where a slot keeps byte `off` of
its block. The inner sum is 32 bits wide. -/
def dataOffset (image : VdiImage) (slot off : Nat) : Nat :=
  slot * image.cbTotalBlockData + u32 (image.offStartData + image.offStartBlockData + off)

/-- What `vdiRead` hands back: the status, `*pcbActuallyRead` and the bytes put
into the I/O context. -/
structure ReadResult where
  rc : Status
  pcbActuallyRead : Option Nat
  data : Option Buf

/-- `vdiRead`. -/
def vdiRead (image : VdiImage) (uOffset cbToRead : Nat) : Option ReadResult :=
  if getImageDiskSize image.header < u64 (uOffset + cbToRead) ∨ cbToRead = 0 then
    some ⟨.verrInvalidParameter, none, none⟩
  else
    let offRead := blockOffset image uOffset
    let cbToRead := clipToBlock image uOffset cbToRead
    match image.paBlocks[blockIndex image uOffset]? with
    | none => none
    | some ptrBlock =>
        if ptrBlock = vdiImageBlockFree then some ⟨.verrVdBlockFree, some cbToRead, none⟩
        else if ptrBlock = vdiImageBlockZero then
          some ⟨.vinfSuccess, some cbToRead, some fun _ => 0⟩
        else if dataOffset image ptrBlock offRead + cbToRead ≤ image.cbImage then
          match image.file.read (dataOffset image ptrBlock offRead) cbToRead with
          | some buf => some ⟨.vinfSuccess, some cbToRead, some buf⟩
          | none => some ⟨.verrEof, some cbToRead, none⟩
        else some ⟨.verrVdReadOutOfRange, some cbToRead, some fun _ => 0⟩

/-! ### Writing -/

/-- What `vdiWrite` hands back: the status, the three lengths where they are
set, and the image. -/
structure WriteResult where
  rc : Status
  pcbWriteProcess : Option Nat
  pcbPreRead : Option Nat
  pcbPostRead : Option Nat
  image : VdiImage

/-- The descriptor after slot `slot` was given to block `uBlock`. -/
def allocDesc (image : VdiImage) (slot uBlock : Nat) : VdiImage :=
  { image with
    cbImage := image.cbImage + image.cbTotalBlockData
    paBlocks := image.paBlocks.set uBlock slot
    paBlocksRev := image.paBlocksRev.map fun rev => rev.set slot uBlock
    header := setImageBlocksAllocated (slot + 1) image.header }

/-- `vdiBlockAllocUpdate` after a successful write. The store into
`paBlocksRev` is undefined outside the array. -/
def vdiBlockAllocUpdate (image : VdiImage) (cBlocksAllocated uBlock : Nat) : Option VdiImage :=
  if image.paBlocksRev.any fun rev => decide (rev.length ≤ cBlocksAllocated) then none
  else vdiUpdateBlockInfoAsync (allocDesc image cBlocksAllocated uBlock) uBlock true

/-- The image after `cb` bytes of `data` went to the slot `slot` at `off`. -/
def writeSlot (image : VdiImage) (slot off cb : Nat) (data : Buf) : VdiImage :=
  { image with file := image.file.write (dataOffset image slot off) cb data }

/-- An unallocated block takes a write without allocation: zeros to a block
already ZERO, or zeros to the whole block, unless zeros are to be honoured. -/
def elidesZeros (image : VdiImage) (ptrBlock cbToWrite : Nat) (data : Buf) : Bool :=
  !image.uOpenFlags.honorZeroes &&
    (ptrBlock == vdiImageBlockZero || cbToWrite == getImageBlockSize image.header) &&
    data.isZero cbToWrite

/-- `vdiWrite`. `data` is the content of the I/O context from its current
position on, `fNoAlloc` the flag `VD_WRITE_NO_ALLOC`. -/
def vdiWrite (image : VdiImage) (uOffset cbToWrite : Nat) (data : Buf) (fNoAlloc : Bool) :
    Option WriteResult :=
  if image.uOpenFlags.readOnly then some ⟨.verrVdImageReadOnly, none, none, none, image⟩
  else if cbToWrite = 0 then some ⟨.verrInvalidParameter, none, none, none, image⟩
  else
    let uBlock := blockIndex image uOffset
    let offWrite := blockOffset image uOffset
    let cbToWrite := clipToBlock image uOffset cbToWrite
    let cbBlock := getImageBlockSize image.header
    match image.paBlocks[uBlock]? with
    | none => none
    | some ptrBlock =>
        if ¬ IsAllocated ptrBlock then
          if elidesZeros image ptrBlock cbToWrite data then
            some ⟨.vinfSuccess, some cbToWrite, some 0, some 0,
              { image with paBlocks := image.paBlocks.set uBlock vdiImageBlockZero }⟩
          else if cbToWrite = cbBlock ∧ ¬ fNoAlloc then
            -- full block write to an unallocated block: data first, then the table
            let slot := getImageBlocksAllocated image.header
            (vdiBlockAllocUpdate (writeSlot image slot 0 cbToWrite data) slot uBlock).map
              fun image' => ⟨.vinfSuccess, some cbToWrite, some 0, some 0, image'⟩
          else
            -- partial write to an unallocated block: the upper layer knows what to do
            some ⟨.verrVdBlockFree, some cbToWrite, some (offWrite % cbBlock),
              some (cbBlock - cbToWrite - offWrite % cbBlock), image⟩
        else
          some ⟨.vinfSuccess, some cbToWrite, none, none,
            writeSlot image ptrBlock offWrite cbToWrite data⟩

/-! ### Geometry -/

section Geometry

variable {image : VdiImage}

section

variable (setUp : SetUp image)

include setUp

theorem SetUp.blockSize_eq : getImageBlockSize image.header = 2 ^ image.uShiftOffset2Index := by
  rw [setUp.uShiftOffset2Index]
  exact getPowerOfTwo_spec setUp.valid.blockSize

theorem SetUp.blockSize_pos : 0 < getImageBlockSize image.header := by
  rw [setUp.blockSize_eq]
  exact Nat.two_pow_pos _

/-- The offset inside a block is the remainder by the block size. -/
theorem SetUp.blockOffset_eq (uOffset : Nat) :
    blockOffset image uOffset = uOffset % getImageBlockSize image.header := by
  have power := setUp.blockSize_eq
  have small : image.uShiftOffset2Index ≤ 32 := by
    have bound := getImageBlockSize_lt image.header
    rw [power] at bound
    exact (Nat.pow_lt_pow_iff_right (by decide)).mp bound |>.le
  rw [blockOffset, setUp.uBlockMask, power, Nat.and_two_pow_sub_one_eq_mod, u32]
  exact Nat.mod_mod_of_dvd _ (Nat.pow_dvd_pow 2 small)

theorem SetUp.blockOffset_lt (uOffset : Nat) :
    blockOffset image uOffset < getImageBlockSize image.header := by
  rw [setUp.blockOffset_eq]
  exact Nat.mod_lt _ setUp.blockSize_pos

/-- The block of an offset inside the disk is the quotient by the block size. -/
theorem SetUp.blockIndex_eq {uOffset : Nat} (inside : uOffset < getImageDiskSize image.header) :
    blockIndex image uOffset = uOffset / getImageBlockSize image.header := by
  have covers := setUp.valid.covers
  have bound := getImageBlocks_lt image.header
  have quotient : uOffset / getImageBlockSize image.header < getImageBlocks image.header :=
    Nat.div_lt_of_lt_mul (lt_of_lt_of_le inside covers)
  rw [blockIndex, Nat.shiftRight_eq_div_pow, ← setUp.blockSize_eq]
  exact u32_of_lt (lt_trans quotient bound)

/-- An offset inside the disk has a block table entry. -/
theorem SetUp.blockIndex_lt {uOffset : Nat} (inside : uOffset < getImageDiskSize image.header) :
    blockIndex image uOffset < image.paBlocks.length := by
  rw [setUp.blockIndex_eq inside, setUp.length_paBlocks]
  exact Nat.div_lt_of_lt_mul (lt_of_lt_of_le inside setUp.valid.covers)

theorem SetUp.clip_pos {uOffset cb : Nat} (positive : 0 < cb) :
    0 < clipToBlock image uOffset cb := by
  have := setUp.blockOffset_lt uOffset
  unfold clipToBlock
  omega

/-- A clipped request ends inside its block. -/
theorem SetUp.clip_le (uOffset cb : Nat) :
    blockOffset image uOffset + clipToBlock image uOffset cb ≤ getImageBlockSize image.header := by
  have := setUp.blockOffset_lt uOffset
  unfold clipToBlock
  omega

/-- A request clipped to a whole block starts at the block's beginning. -/
theorem SetUp.offset_of_clip_eq {uOffset cb : Nat}
    (whole : clipToBlock image uOffset cb = getImageBlockSize image.header) :
    blockOffset image uOffset = 0 := by
  have := setUp.clip_le uOffset cb
  omega

end

end Geometry

/-! ### What the functions do -/

variable {uBlock : Nat}

/-- Saving the block table entry of a block, with or without the header. -/
theorem vdiUpdateBlockInfoAsync_eq {image : VdiImage} {ptrBlock : Nat} {fUpdateHdr : Bool}
    (entry : image.paBlocks[uBlock]? = some ptrBlock) :
    vdiUpdateBlockInfoAsync image uBlock fUpdateHdr = some { image with
      file := (if fUpdateHdr then (vdiUpdateHeader image).file else image.file).write
        (image.offStartBlocks + uBlock * 4) 4 (leByte ptrBlock) } := by
  cases fUpdateHdr
  · simp [vdiUpdateBlockInfoAsync, writeBlockPointer, entry]
  · have same : (vdiUpdateHeader image).paBlocks[uBlock]? = some ptrBlock := entry
    simp only [vdiUpdateBlockInfoAsync, writeBlockPointer, if_true, same]
    rfl

/-- The file after slot `slot` was recorded for block `uBlock`. -/
def allocFile (image : VdiImage) (slot uBlock : Nat) : ByteFile :=
  (vdiUpdateHeader (allocDesc image slot uBlock)).file.write
    (image.offStartBlocks + uBlock * 4) 4 (leByte slot)

theorem vdiBlockAllocUpdate_eq {image image' : VdiImage} {slot : Nat}
    (result : vdiBlockAllocUpdate image slot uBlock = some image')
    (inside : uBlock < image.paBlocks.length) :
    (∀ rev, image.paBlocksRev = some rev → slot < rev.length) ∧
      image' = { allocDesc image slot uBlock with file := allocFile image slot uBlock } := by
  unfold vdiBlockAllocUpdate at result
  split at result
  · cases result
  · rename_i room
    have entry : (allocDesc image slot uBlock).paBlocks[uBlock]? = some slot :=
      List.getElem?_set_self inside
    rw [vdiUpdateBlockInfoAsync_eq entry] at result
    refine ⟨fun rev found => ?_, (Option.some.inj result).symm⟩
    simp only [found, Option.any_some, decide_eq_true_eq] at room
    exact Nat.lt_of_not_le room

/-- Everything a successful `vdiWrite` can have done. -/
inductive WriteStep (image : VdiImage) (uOffset cb : Nat) (data : Buf) (fNoAlloc : Bool) :
    VdiImage → Prop where
  /-- zeros to an unallocated block only mark it ZERO -/
  | elided {ptrBlock : Nat}
      (entry : image.paBlocks[blockIndex image uOffset]? = some ptrBlock)
      (unallocated : ¬ IsAllocated ptrBlock)
      (elides : elidesZeros image ptrBlock (clipToBlock image uOffset cb) data = true) :
      WriteStep image uOffset cb data fNoAlloc
        { image with paBlocks := image.paBlocks.set (blockIndex image uOffset) vdiImageBlockZero }
  /-- a whole block takes the next slot -/
  | allocated {ptrBlock : Nat} {image' : VdiImage}
      (entry : image.paBlocks[blockIndex image uOffset]? = some ptrBlock)
      (unallocated : ¬ IsAllocated ptrBlock)
      (keeps : elidesZeros image ptrBlock (clipToBlock image uOffset cb) data = false)
      (whole : clipToBlock image uOffset cb = getImageBlockSize image.header)
      (allowed : fNoAlloc = false)
      (update : vdiBlockAllocUpdate
        (writeSlot image (getImageBlocksAllocated image.header) 0 (clipToBlock image uOffset cb)
          data)
        (getImageBlocksAllocated image.header) (blockIndex image uOffset) = some image') :
      WriteStep image uOffset cb data fNoAlloc image'
  /-- an allocated block is written in place -/
  | inPlace {ptrBlock : Nat}
      (entry : image.paBlocks[blockIndex image uOffset]? = some ptrBlock)
      (inUse : IsAllocated ptrBlock) :
      WriteStep image uOffset cb data fNoAlloc
        (writeSlot image ptrBlock (blockOffset image uOffset) (clipToBlock image uOffset cb) data)

variable {uOffset cb : Nat} {data : Buf} {fNoAlloc : Bool} {result : WriteResult}

section

variable {image : VdiImage} (run : vdiWrite image uOffset cb data fNoAlloc = some result)

include run

theorem vdiWrite_success (success : result.rc = .vinfSuccess) :
    image.uOpenFlags.readOnly = false ∧ 0 < cb ∧
      result.pcbWriteProcess = some (clipToBlock image uOffset cb) ∧
      WriteStep image uOffset cb data fNoAlloc result.image := by
  unfold vdiWrite at run
  split at run
  · cases run
    cases success
  rename_i writable
  split at run
  · cases run
    cases success
  rename_i nonempty
  have positive : 0 < cb := Nat.pos_of_ne_zero nonempty
  have notReadOnly : image.uOpenFlags.readOnly = false := by simpa using writable
  dsimp only at run
  split at run
  · cases run
  rename_i ptrBlock entry
  split at run
  · rename_i unallocated
    split at run
    · rename_i elides
      cases run
      exact ⟨notReadOnly, positive, rfl, .elided entry unallocated elides⟩
    · rename_i keeps
      split at run
      · rename_i full
        obtain ⟨image', update, rfl⟩ := Option.map_eq_some_iff.mp run
        exact ⟨notReadOnly, positive, rfl,
          .allocated entry unallocated (by simpa using keeps) full.1 (by simpa using full.2) update⟩
      · cases run
        cases success
  · rename_i inUse
    cases run
    exact ⟨notReadOnly, positive, rfl, .inPlace entry (not_not.mp inUse)⟩

/-- A write that does not succeed leaves the image as it is. -/
theorem vdiWrite_failure (failure : result.rc ≠ .vinfSuccess) : result.image = image := by
  unfold vdiWrite at run
  split at run
  · cases run
    rfl
  split at run
  · cases run
    rfl
  dsimp only at run
  split at run
  · cases run
  split at run
  · split at run
    · cases run
      exact absurd rfl failure
    split at run
    · obtain ⟨image', -, rfl⟩ := Option.map_eq_some_iff.mp run
      exact absurd rfl failure
    · cases run
      rfl
  · cases run
    exact absurd rfl failure

end

/-- A request inside the disk is never undefined for `vdiRead`, and what it
answers is decided by the table entry of its block. -/
theorem vdiRead_cases {image : VdiImage} (setUp : SetUp image) {uOffset cb : Nat}
    (positive : 0 < cb) (inside : uOffset + cb ≤ getImageDiskSize image.header) :
    ∃ ptrBlock, image.paBlocks[blockIndex image uOffset]? = some ptrBlock ∧
      vdiRead image uOffset cb = some (
        let n := clipToBlock image uOffset cb
        let off := dataOffset image ptrBlock (blockOffset image uOffset)
        if ptrBlock = vdiImageBlockFree then ⟨.verrVdBlockFree, some n, none⟩
        else if ptrBlock = vdiImageBlockZero then ⟨.vinfSuccess, some n, some fun _ => 0⟩
        else if off + n ≤ image.cbImage then
          if off + n ≤ image.file.size then ⟨.vinfSuccess, some n, some (image.file.byte.drop off)⟩
          else ⟨.verrEof, some n, none⟩
        else ⟨.verrVdReadOutOfRange, some n, some fun _ => 0⟩) := by
  have index := setUp.blockIndex_lt (show uOffset < _ by omega)
  have disk := getImageDiskSize_lt image.header
  have accepted : ¬(getImageDiskSize image.header < u64 (uOffset + cb) ∨ cb = 0) := by
    have : u64 (uOffset + cb) = uOffset + cb := Nat.mod_eq_of_lt (by omega)
    omega
  refine ⟨image.paBlocks[blockIndex image uOffset], List.getElem?_eq_getElem index, ?_⟩
  unfold vdiRead
  rw [if_neg accepted, List.getElem?_eq_getElem index]
  dsimp only
  split
  · rfl
  split
  · rfl
  split
  · split
    · rename_i buf read
      obtain ⟨fits, rfl⟩ := ByteFile.read_eq_some.mp read
      rw [if_pos fits]
    · rename_i short
      rw [if_neg (Nat.not_le_of_lt (ByteFile.read_eq_none.mp short))]
  · rfl

/-- A read of a FREE block hands back no data. -/
theorem vdiRead_free {image : VdiImage} {result : ReadResult}
    (run : vdiRead image uOffset cb = some result) (free : result.rc = .verrVdBlockFree) :
    result.data = none := by
  unfold vdiRead at run
  split at run
  · cases run
    rfl
  dsimp only at run
  split at run
  · cases run
  split at run
  · cases run
    rfl
  split at run
  · cases run
    cases free
  split at run
  · split at run <;> cases run <;> cases free
  · cases run
    cases free

end VBox.Storage.Vdi
