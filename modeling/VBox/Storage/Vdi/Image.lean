import VBox.Lib.ByteFile
import VBox.Lib.SlotTable
import VBox.Storage.Vdi.Header

/-!
The VDI image descriptor and the functions of `VDI.cpp` that open, create,
flush and close an image.

The storage below answers every request at once: a write succeeds, a read fails
exactly when it goes over the end of the file. Under such a storage the
asynchronous metadata functions (`vdiUpdateHeaderAsync`,
`vdiUpdateBlockInfoAsync`, `vdiFlushImageIoCtx`) do what their synchronous
siblings do. Memory allocation never fails. A result `none` stands for an
access outside an array, which the C code does not define.
-/

namespace VBox.Storage.Vdi

open VBox.Lib

/-- `VDIIMAGEDESC`, with the content of the container file. -/
structure VdiImage where
  file : ByteFile
  uOpenFlags : OpenFlags
  header : VdiHeader
  paBlocks : List Nat
  paBlocksRev : Option (List Nat)
  uImageFlags : Nat
  offStartBlocks : Nat
  offStartData : Nat
  uBlockMask : Nat
  uShiftOffset2Index : Nat
  offStartBlockData : Nat
  cbTotalBlockData : Nat
  cbImage : Nat

/-- `vdiSetupImageDesc`: the fields derived from the header. -/
def vdiSetupImageDesc (image : VdiImage) : VdiImage :=
  { image with
    uImageFlags := getImageFlags image.header |||
      vdiTranslateVDI2ImageFlags (getImageType image.header)
    offStartBlocks := getImageBlocksOffset image.header
    offStartData := getImageDataOffset image.header
    uBlockMask := getImageBlockSize image.header - 1
    uShiftOffset2Index := getPowerOfTwo (getImageBlockSize image.header)
    offStartBlockData := getImageExtraBlockSize image.header
    cbTotalBlockData := u32 (getImageExtraBlockSize image.header + getImageBlockSize image.header) }

/-! ### Writing metadata -/

/-- The size and the bytes `vdiUpdateHeader` writes for a header. -/
def headerBytes : VdiHeader → Nat × Buf
  | .v0 h => (sizeofHeader0, header0Codec.enc h)
  | .v1 _ h g =>
      if h.cbHeader.toNat < sizeofHeader1Plus then (sizeofHeader1, header1Codec.enc h)
      else (sizeofHeader1Plus, header1PlusCodec.enc (h, g))

/-- `vdiUpdateHeader`. -/
def vdiUpdateHeader (image : VdiImage) : VdiImage :=
  { image with
    file := image.file.write sizeofPreHeader (headerBytes image.header).1
      (headerBytes image.header).2 }

/-- Save one block pointer. -/
def writeBlockPointer (image : VdiImage) (uBlock : Nat) : Option VdiImage :=
  (image.paBlocks[uBlock]?).map fun ptrBlock =>
    { image with
      file := image.file.write (image.offStartBlocks + uBlock * 4) 4 (leByte ptrBlock) }

/-- `vdiUpdateBlockInfoAsync`: save the header if asked to, then one block pointer. -/
def vdiUpdateBlockInfoAsync (image : VdiImage) (uBlock : Nat) (fUpdateHdr : Bool) :
    Option VdiImage :=
  writeBlockPointer (if fUpdateHdr then vdiUpdateHeader image else image) uBlock

/-- `vdiUpdateBlockInfo`. -/
def vdiUpdateBlockInfo (image : VdiImage) (uBlock : Nat) : Option VdiImage :=
  vdiUpdateBlockInfoAsync image uBlock true

/-- `vdiFlushImage`, and `vdiFlushImageIoCtx` for a storage that answers at once. -/
def vdiFlushImage (image : VdiImage) : VdiImage :=
  if image.uOpenFlags.readOnly then image else vdiUpdateHeader image

/-- `vdiFlush`. -/
def vdiFlush (image : VdiImage) : VdiImage := vdiFlushImage image

/-- `vdiClose` without deletion: what is left is the file. -/
def vdiClose (image : VdiImage) : ByteFile := (vdiFlushImage image).file

/-! ### Opening -/

def zeroUuid : RtUuid := Vector.replicate 16 0

def zeroGeometry : VdiDiskGeometry := ⟨0, 0, 0, 0⟩

/-- The header of a freshly allocated descriptor. -/
def zeroHeader0 : VdiHeader0 :=
  ⟨0, 0, Vector.replicate 256 0, zeroGeometry, 0, 0, 0, 0, zeroUuid, zeroUuid, zeroUuid⟩

/-- The version 1 header before anything was read into it. -/
def zeroHeader1 : VdiHeader1 :=
  ⟨0, 0, 0, Vector.replicate 256 0, 0, 0, zeroGeometry, 0, 0, 0, 0, 0, 0, zeroUuid, zeroUuid,
    zeroUuid, zeroUuid⟩

/-- Read the header that follows the pre-header: the status and the header as
it is then in the descriptor. A 1.1 header is converted to 1.1+ unless the
image is opened read-only. -/
def readHeader (file : ByteFile) (uOpenFlags : OpenFlags) (uVersion : UInt32) :
    Status × VdiHeader :=
  if uVersion.toNat >>> 16 = 0 then
    match file.read sizeofPreHeader sizeofHeader0 with
    | none => (.verrEof, .v0 zeroHeader0)
    | some buf => (.vinfSuccess, .v0 (header0Codec.dec buf))
  else
    let minor := uVersion.toNat % 2 ^ 16
    match file.read sizeofPreHeader sizeofHeader1 with
    | none => (.verrEof, .v1 minor zeroHeader1 zeroGeometry)
    | some buf =>
        let h := header1Codec.dec buf
        if ¬ uOpenFlags.readOnly ∧ minor = 1 ∧ h.cbHeader.toNat < sizeofHeader1Plus then
          (.vinfSuccess, .v1 minor { h with cbHeader := UInt32.ofNat sizeofHeader1Plus }
            geometryNotCalculated)
        else if sizeofHeader1Plus ≤ h.cbHeader.toNat then
          match file.read sizeofPreHeader sizeofHeader1Plus with
          | none => (.verrEof, .v1 minor h zeroGeometry)
          | some buf =>
              let hg := header1PlusCodec.dec buf
              (.vinfSuccess, .v1 minor hg.1 hg.2)
        else (.vinfSuccess, .v1 minor h zeroGeometry)

/-- The back resolving table for discards, entry by entry: a slot out of bounds
or used twice is an inconsistency. -/
def resolveBlocks (cBlocksAllocated : Nat) : List Nat → Nat → List Nat → Option (List Nat)
  | [], _, paBlocksRev => some paBlocksRev
  | ptrBlock :: rest, i, paBlocksRev =>
      if IsAllocated ptrBlock then
        if ptrBlock < cBlocksAllocated ∧ paBlocksRev[ptrBlock]? = some vdiImageBlockFree then
          resolveBlocks cBlocksAllocated rest (i + 1) (paBlocksRev.set ptrBlock i)
        else none
      else resolveBlocks cBlocksAllocated rest (i + 1) paBlocksRev

/-- The descriptor while an image is being opened. -/
def openDesc (file : ByteFile) (uOpenFlags : OpenFlags) (header : VdiHeader) : VdiImage where
  file := file
  uOpenFlags := uOpenFlags
  header := header
  paBlocks := []
  paBlocksRev := none
  uImageFlags := 0
  offStartBlocks := 0
  offStartData := 0
  uBlockMask := 0
  uShiftOffset2Index := 0
  offStartBlockData := 0
  cbTotalBlockData := 0
  cbImage := file.size

/-- `vdiOpenImage`. A failed open goes through `vdiFreeImage`, which flushes
the header as far as it was read; the error carries the file it leaves. -/
def vdiOpenImage (file : ByteFile) (uOpenFlags : OpenFlags) :
    Except (Status × ByteFile) VdiImage :=
  let fail rc header := .error (rc, vdiClose (openDesc file uOpenFlags header))
  match file.read 0 sizeofPreHeader with
  | none => fail .verrVdVdiInvalidHeader (.v0 zeroHeader0)
  | some buf =>
      let preHeader := preHeaderCodec.dec buf
      if vdiValidatePreHeader preHeader ≠ .vinfSuccess then
        fail (vdiValidatePreHeader preHeader) (.v0 zeroHeader0)
      else
        match readHeader file uOpenFlags preHeader.u32Version with
        | (rc, header) =>
            if rc ≠ .vinfSuccess then fail rc header
            else if vdiValidateHeader header ≠ .vinfSuccess then fail .verrVdVdiInvalidHeader header
            else
              let image := vdiSetupImageDesc (openDesc file uOpenFlags header)
              match file.read image.offStartBlocks (getImageBlocks header * 4) with
              | none => fail .verrEof header
              | some table =>
                  let paBlocks := words table (getImageBlocks header)
                  if uOpenFlags.discard then
                    match resolveBlocks (getImageBlocksAllocated header) paBlocks 0
                        (List.replicate (getImageBlocks header) vdiImageBlockFree) with
                    | none => fail .verrVdVdiInvalidHeader header
                    | some rev => .ok { image with paBlocks := paBlocks, paBlocksRev := some rev }
                  else .ok { image with paBlocks := paBlocks }

/-! ### Creating -/

/-- The arguments of `vdiCreate` the image depends on: the geometry and the
comment it stores, the identifiers drawn for it, the configured data alignment
and the free space of the host, where it is known. -/
structure CreateArgs where
  cbSize : Nat
  uImageFlags : Nat
  szComment : Vector UInt8 256
  lchsGeometry : VdiDiskGeometry
  uuid : RtUuid
  uuidModify : RtUuid
  cbDataAlign : Nat
  cbFree : Option Nat

/-- Fill with zeros in chunks until `cbFill` bytes are written. -/
def fillZeros (offStartData cbFill cbChunk : Nat) : Nat → Nat → ByteFile → ByteFile
  | 0, _, file => file
  | rounds + 1, uOff, file =>
      if uOff < cbFill then
        fillZeros offStartData cbFill cbChunk rounds (uOff + cbChunk)
          (file.write (offStartData + uOff) cbChunk fun _ => 0)
      else file

/-- The buffer `vdiCreateImage` fills a fixed image from. -/
def cbFillBuf : Nat := 128 * 1024

/-- The header of a new image: `vdiInitHeader`, then the LCHS geometry, the
image identifiers and, for a fixed image, the allocation count. -/
def createHeader (args : CreateArgs) : VdiHeader :=
  match vdiInitHeader args.uImageFlags args.szComment args.cbSize vdiImageDefaultBlockSize 0
      args.cbDataAlign args.uuid with
  | .v0 h => .v0 h
  | .v1 minor h _ =>
      .v1 minor
        { h with
          cBlocksAllocated := if hasFlag args.uImageFlags vdImageFlagsFixed then h.cBlocks else 0
          uuidModify := args.uuidModify }
        { args.lchsGeometry with cbSector := vdiGeometrySectorSize }

/-- The block table of a new image. -/
def createBlocks (args : CreateArgs) (cBlocks : Nat) : List Nat :=
  if hasFlag args.uImageFlags vdImageFlagsFixed then List.range cBlocks
  else List.replicate cBlocks vdiImageBlockFree

/-- `vdiCreateImage`. The descriptor keeps the open flags of a zeroed
allocation: the function never stores the flags it is called with. -/
def vdiCreateImage (args : CreateArgs) : Except Status VdiImage :=
  let header := createHeader args
  let paBlocks := createBlocks args (getImageBlocks header)
  let fFixed := hasFlag args.uImageFlags vdImageFlagsFixed
  let desc := vdiSetupImageDesc { openDesc .empty {} header with paBlocks := paBlocks }
  let cbTotal := desc.offStartData + getImageBlocks header * desc.cbTotalBlockData
  if fFixed && args.cbFree.any (· < cbTotal) then .error .verrDiskFull
  else
    let cbFile := if fFixed then cbTotal else desc.offStartData
    let file := ByteFile.empty.setSize cbFile
    let file := file.write 0 sizeofPreHeader (preHeaderCodec.enc vdiInitPreHeader)
    let file := file.write sizeofPreHeader sizeofHeader1Plus (headerBytes header).2
    let file := file.write desc.offStartBlocks (getImageBlocks header * 4) (ofWords paBlocks)
    let cbFill := getImageBlocks header * desc.cbTotalBlockData
    let file := if fFixed then
        fillZeros desc.offStartData cbFill (min cbFill cbFillBuf) (cbFill / cbFillBuf + 1) 0 file
      else file
    .ok { desc with file := file, cbImage := cbFile }

/-- `vdiCreate`. A read-only image is closed and opened again. -/
def vdiCreate (args : CreateArgs) (uOpenFlags : OpenFlags) : Except Status VdiImage :=
  if hasFlagOutside args.uImageFlags vdVdiImageFlagsMask then .error .verrVdInvalidType
  else if args.cbSize = 0 ∨ 2 ^ 50 * 4 - 2 ^ 20 * 3 ≤ args.cbSize then .error .verrVdInvalidSize
  else if args.cbSize < vdiImageDefaultBlockSize then .error .verrInvalidParameter
  else
    match vdiCreateImage args with
    | .error rc => .error rc
    | .ok image =>
        if uOpenFlags.readOnly then
          match vdiOpenImage (vdiClose image) uOpenFlags with
          | .ok reopened => .ok reopened
          | .error (rc, _) => .error rc
        else .ok image

/-! ### Small images

Files that hold a given header, block table and data area, for runs on
concrete inputs. -/

/-- The header of a dynamic image with small blocks, its table at 512 and its
data area at `offData`. -/
def smallHeader (offData cbBlock cbBlockExtra cBlocks cBlocksAllocated : UInt32) : VdiHeader :=
  .v1 1
    { cbHeader := 400, u32Type := 1, fFlags := 0, szComment := Vector.replicate 256 0
      offBlocks := 512, offData := offData, legacyGeometry := geometryNotCalculated
      u32Dummy := 0, cbDisk := cbBlock.toUInt64 * cBlocks.toUInt64, cbBlock := cbBlock
      cbBlockExtra := cbBlockExtra, cBlocks := cBlocks, cBlocksAllocated := cBlocksAllocated
      uuidCreate := Vector.replicate 16 1, uuidModify := Vector.replicate 16 1
      uuidLinkage := zeroUuid, uuidParentModify := zeroUuid }
    geometryNotCalculated

/-- The file with a header, a block table and the given bytes behind them. -/
def imageFile (header : VdiHeader) (paBlocks : List Nat) (size : Nat) (data : Buf) : ByteFile :=
  let file := (ByteFile.empty.setSize size).write (getImageDataOffset header)
    (size - getImageDataOffset header) data
  let file := file.write 0 sizeofPreHeader (preHeaderCodec.enc vdiInitPreHeader)
  let file := file.write sizeofPreHeader (headerBytes header).1 (headerBytes header).2
  file.write (getImageBlocksOffset header) (paBlocks.length * 4) (ofWords paBlocks)

/-- The image a file opens to; an unopened descriptor where it does not. -/
def openedImage (file : ByteFile) (uOpenFlags : OpenFlags) : VdiImage :=
  match vdiOpenImage file uOpenFlags with
  | .ok image => image
  | .error _ => openDesc file uOpenFlags (.v0 zeroHeader0)

variable {file : ByteFile} {uOpenFlags : OpenFlags}

theorem openedImage_eq (ok : (vdiOpenImage file uOpenFlags).isOk = true) :
    vdiOpenImage file uOpenFlags = .ok (openedImage file uOpenFlags) := by
  unfold openedImage
  cases result : vdiOpenImage file uOpenFlags with
  | ok image => rfl
  | error e =>
    rw [result] at ok
    cases ok

/-! ### What opening establishes -/

/-- The descriptor agrees with its header and holds one entry for each block. -/
structure SetUp (image : VdiImage) : Prop where
  valid : ValidHeader image.header
  offStartBlocks : image.offStartBlocks = getImageBlocksOffset image.header
  offStartData : image.offStartData = getImageDataOffset image.header
  uBlockMask : image.uBlockMask = getImageBlockSize image.header - 1
  uShiftOffset2Index : image.uShiftOffset2Index = getPowerOfTwo (getImageBlockSize image.header)
  offStartBlockData : image.offStartBlockData = getImageExtraBlockSize image.header
  cbTotalBlockData : image.cbTotalBlockData =
    u32 (getImageExtraBlockSize image.header + getImageBlockSize image.header)
  length_paBlocks : image.paBlocks.length = getImageBlocks image.header

variable {image : VdiImage}

/-- Changing entries, slots, the file and the allocation count keeps the rest of
the descriptor in step with the header. -/
theorem SetUp.update (setUp : SetUp image) {file : ByteFile} {paBlocks : List Nat}
    {rev : Option (List Nat)} {cbImage n : Nat} (length : paBlocks.length = image.paBlocks.length)
    (fits : n ≤ getImageBlocks image.header) :
    SetUp { image with
      file := file, paBlocks := paBlocks, paBlocksRev := rev, cbImage := cbImage
      header := setImageBlocksAllocated n image.header } := by
  obtain ⟨blocks, blockSize, extra, disk, offBlocks, offData⟩ :=
    setImageBlocksAllocated_frame image.header n
  have count : getImageBlocksAllocated (setImageBlocksAllocated n image.header) = n :=
    getImageBlocksAllocated_set image.header (lt_of_le_of_lt fits (getImageBlocks_lt _))
  have valid := setUp.valid
  constructor
  · constructor
    · rw [disk]; exact valid.diskSize
    · rw [blocks]; exact valid.blocks
    · rw [blockSize]; exact valid.blockSize
    · rw [blocks, count]; exact fits
    · rw [disk, blockSize, blocks]; exact valid.covers
  · rw [offBlocks]; exact setUp.offStartBlocks
  · rw [offData]; exact setUp.offStartData
  · rw [blockSize]; exact setUp.uBlockMask
  · rw [blockSize]; exact setUp.uShiftOffset2Index
  · rw [extra]; exact setUp.offStartBlockData
  · rw [extra, blockSize]; exact setUp.cbTotalBlockData
  · rw [blocks, length]; exact setUp.length_paBlocks

/-- Changing entries and the file does as well. -/
theorem SetUp.updateTable (setUp : SetUp image) {file : ByteFile} {paBlocks : List Nat}
    (length : paBlocks.length = image.paBlocks.length) :
    SetUp { image with file := file, paBlocks := paBlocks } :=
  { setUp with length_paBlocks := length.trans setUp.length_paBlocks }

variable {n : Nat} {rest rev : List Nat}

/-- The loop over the block table builds the inverse of what it has seen. -/
theorem resolveBlocks_indexes {rev' : List Nat} (done : List Nat)
    (small : done.length + rest.length ≤ vdiImageBlockFree)
    (inv : Indexes IsAllocated vdiImageBlockFree done rev n)
    (result : resolveBlocks n rest done.length rev = some rev') :
    Indexes IsAllocated vdiImageBlockFree (done ++ rest) rev' n ∧ rev'.length = rev.length := by
  induction rest generalizing done rev with
  | nil =>
    simp only [resolveBlocks, Option.some.injEq] at result
    subst result
    exact ⟨by simpa using inv, rfl⟩
  | cons ptrBlock rest ih =>
    have split : done ++ ptrBlock :: rest = done ++ [ptrBlock] ++ rest := by simp
    have length : (done ++ [ptrBlock]).length = done.length + 1 := by simp
    rw [List.length_cons] at small
    rw [resolveBlocks] at result
    split at result
    · rename_i allocated
      split at result
      · rename_i accepted
        obtain ⟨below, free⟩ := accepted
        have fresh : Unnamed IsAllocated done ptrBlock := by
          intro i entry inUse
          have named := inv.back i ptrBlock entry inUse
          rw [free] at named
          obtain ⟨inside, -⟩ := List.getElem?_eq_some_iff.mp entry
          have := Option.some.inj named
          omega
        have grown := inv.appendSlot below fresh allocated
        rw [split]
        have final := ih _ (by omega) grown (by rw [length]; exact result)
        rw [List.length_set] at final
        exact final
      · cases result
    · rename_i unallocated
      rw [split]
      exact ih _ (by omega) (inv.appendMark unallocated) (by rw [length]; exact result)

/-- The loop accepts every table that has an inverse. -/
theorem resolveBlocks_total {all : List Nat} (done : List Nat)
    (inv : Indexes IsAllocated vdiImageBlockFree done rev n)
    (whole : Indexes IsAllocated vdiImageBlockFree (done ++ rest) all n) :
    ∃ rev', resolveBlocks n rest done.length rev = some rev' := by
  induction rest generalizing done rev with
  | nil => exact ⟨rev, rfl⟩
  | cons ptrBlock rest ih =>
    have split : done ++ ptrBlock :: rest = done ++ [ptrBlock] ++ rest := by simp
    have length : (done ++ [ptrBlock]).length = done.length + 1 := by simp
    rw [resolveBlocks]
    by_cases allocated : IsAllocated ptrBlock
    · have entry : (done ++ ptrBlock :: rest)[done.length]? = some ptrBlock := by simp
      have below := whole.below _ _ entry allocated
      have fresh : Unnamed IsAllocated done ptrBlock := by
        intro i found inUse
        obtain ⟨inside, -⟩ := List.getElem?_eq_some_iff.mp found
        have left : (done ++ ptrBlock :: rest)[i]? = some ptrBlock := by
          rw [List.getElem?_append_left inside]
          exact found
        exact absurd (whole.distinct left entry inUse) inside.ne
      have free := inv.spare ptrBlock (below.trans_le inv.fits) fresh
      rw [if_pos allocated, if_pos ⟨below, free⟩, ← length]
      exact ih _ (inv.appendSlot below fresh allocated) (by rw [← split]; exact whole)
    · rw [if_neg allocated, ← length]
      exact ih _ (inv.appendMark allocated) (by rw [← split]; exact whole)

/-- What a successful open has checked and stored. -/
structure Opened (file : ByteFile) (uOpenFlags : OpenFlags) (image : VdiImage) : Prop where
  setUp : SetUp image
  validated : vdiValidateHeader image.header = .vinfSuccess
  file_eq : image.file = file
  flags_eq : image.uOpenFlags = uOpenFlags
  cbImage_eq : image.cbImage = file.size
  preHeader : 72 ≤ file.size ∧
    vdiValidatePreHeader (preHeaderCodec.dec (file.byte.drop 0)) = .vinfSuccess
  header : readHeader file uOpenFlags (preHeaderCodec.dec (file.byte.drop 0)).u32Version =
    (.vinfSuccess, image.header)
  table_inside : image.offStartBlocks + getImageBlocks image.header * 4 ≤ file.size
  paBlocks_eq : image.paBlocks =
    words (file.byte.drop image.offStartBlocks) (getImageBlocks image.header)
  rev_none : uOpenFlags.discard = false → image.paBlocksRev = none
  rev_some : uOpenFlags.discard = true → ∃ rev, image.paBlocksRev = some rev ∧
    rev.length = getImageBlocks image.header ∧
    Indexes IsAllocated vdiImageBlockFree image.paBlocks rev (getImageBlocksAllocated image.header)

theorem setUp_openDesc {header : VdiHeader} {paBlocks : List Nat} {rev : Option (List Nat)}
    (valid : ValidHeader header) (length : paBlocks.length = getImageBlocks header) :
    SetUp { vdiSetupImageDesc (openDesc file uOpenFlags header) with
      paBlocks := paBlocks, paBlocksRev := rev } :=
  ⟨valid, rfl, rfl, rfl, rfl, rfl, rfl, length⟩

/-- An empty reverse table is right for an empty block table. -/
theorem indexes_replicate {cBlocks : Nat} (fits : n ≤ cBlocks) :
    Indexes IsAllocated vdiImageBlockFree [] (List.replicate cBlocks vdiImageBlockFree) n := by
  refine Indexes.nil (by simpa using fits) fun p below => ?_
  rw [List.length_replicate] at below
  exact List.getElem?_replicate_of_lt below

theorem vdiOpenImage_opened (result : vdiOpenImage file uOpenFlags = .ok image) :
    Opened file uOpenFlags image := by
  unfold vdiOpenImage at result
  cases preRead : file.read 0 sizeofPreHeader with
  | none =>
    simp only [preRead] at result
    cases result
  | some buf =>
    obtain ⟨preInside, rfl⟩ := ByteFile.read_eq_some.mp preRead
    simp only [preRead] at result
    split at result
    · cases result
    rename_i preValid
    cases headerRead : readHeader file uOpenFlags
        (preHeaderCodec.dec (file.byte.drop 0)).u32Version with
    | mk rc header =>
      simp only [headerRead] at result
      split at result
      · cases result
      rename_i rcOk
      split at result
      · cases result
      rename_i headerOk
      have valid := validHeader_of_success (not_not.mp headerOk)
      split at result
      · cases result
      rename_i table tableRead
      obtain ⟨tableInside, rfl⟩ := ByteFile.read_eq_some.mp tableRead
      split at result
      · rename_i discard
        split at result
        · cases result
        rename_i rev resolved
        cases result
        have small := getImageBlocks_lt header
        obtain ⟨indexes, length⟩ := resolveBlocks_indexes []
          (by simp [vdiImageBlockFree]; omega) (indexes_replicate valid.allocated) resolved
        rw [List.length_replicate] at length
        exact
          { setUp := setUp_openDesc valid (length_words _ _)
            validated := not_not.mp headerOk
            file_eq := rfl
            flags_eq := rfl
            cbImage_eq := rfl
            preHeader := ⟨preInside, not_not.mp preValid⟩
            header := by rw [headerRead, not_not.mp rcOk]; rfl
            table_inside := tableInside
            paBlocks_eq := rfl
            rev_none := fun off => by rw [discard] at off; cases off
            rev_some := fun _ => ⟨rev, rfl, length, indexes⟩ }
      · rename_i discard
        cases result
        exact
          { setUp := setUp_openDesc valid (length_words _ _)
            validated := not_not.mp headerOk
            file_eq := rfl
            flags_eq := rfl
            cbImage_eq := rfl
            preHeader := ⟨preInside, not_not.mp preValid⟩
            header := by rw [headerRead, not_not.mp rcOk]; rfl
            table_inside := tableInside
            paBlocks_eq := rfl
            rev_none := fun _ => rfl
            rev_some := fun on => absurd on discard }

end VBox.Storage.Vdi
