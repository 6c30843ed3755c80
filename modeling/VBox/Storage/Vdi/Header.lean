import VBox.Lib.Codec
import VBox.Storage.Basic

/-!
The on-disk headers of a VDI image (`VDICore.h`) and the functions of `VDI.cpp`
that initialise and validate them.

A file starts with the pre-header (72 bytes), followed by the version 0 header
(348 bytes) or the version 1 header (384 bytes, 400 bytes in the "1+" form with
the LCHS geometry at its end). Header fields are fixed-width words, so a setter
truncates exactly as the C assignment does.
-/

namespace VBox.Storage.Vdi

open VBox.Lib

/-- `VDI_IMAGE_SIGNATURE`. -/
def vdiImageSignature : UInt32 := 0xbeda107f

/-- `VDI_IMAGE_VERSION`, version 1.1. -/
def vdiImageVersion : UInt32 := 0x00010001

/-- `VDI_GEOMETRY_SECTOR_SIZE`. -/
def vdiGeometrySectorSize : UInt32 := 512

/-- `VDI_DATA_ALIGN`. -/
def vdiDataAlign : Nat := 2 ^ 20

/-- `VDI_IMAGE_DEFAULT_BLOCK_SIZE`. -/
def vdiImageDefaultBlockSize : Nat := 2 ^ 20

/-- `VDI_IMAGE_BLOCK_FREE`: not allocated, reads are answered by the parent. -/
def vdiImageBlockFree : Nat := 2 ^ 32 - 1

/-- `VDI_IMAGE_BLOCK_ZERO`: not allocated, reads as zeros. -/
def vdiImageBlockZero : Nat := 2 ^ 32 - 2

/-- `IS_VDI_IMAGE_BLOCK_ALLOCATED`. -/
def IsAllocated (bp : Nat) : Prop := bp < vdiImageBlockZero

instance (bp : Nat) : Decidable (IsAllocated bp) := by unfold IsAllocated; infer_instance

theorem not_isAllocated_free : ¬ IsAllocated vdiImageBlockFree := by decide

theorem not_isAllocated_zero : ¬ IsAllocated vdiImageBlockZero := by decide

/-- A block pointer is FREE, ZERO or the number of a slot. -/
theorem blockPointer_cases {bp : Nat} (bound : bp < 2 ^ 32) :
    bp = vdiImageBlockFree ∨ bp = vdiImageBlockZero ∨ IsAllocated bp := by
  unfold IsAllocated vdiImageBlockFree vdiImageBlockZero
  omega

/-! ### The structures -/

/-- `RTUUID`, kept as its 16 bytes. -/
abbrev RtUuid := Vector UInt8 16

/-- `RTUuidIsNull`. -/
def rtUuidIsNull (uuid : RtUuid) : Bool := uuid == Vector.replicate 16 0

/-- `VDIDISKGEOMETRY`. -/
structure VdiDiskGeometry where
  cCylinders : UInt32
  cHeads : UInt32
  cSectors : UInt32
  cbSector : UInt32
  deriving DecidableEq, Repr

/-- `VDIPREHEADER`. -/
structure VdiPreHeader where
  szFileInfo : Vector UInt8 64
  u32Signature : UInt32
  u32Version : UInt32
  deriving DecidableEq, Repr

/-- `VDIHEADER0`. -/
structure VdiHeader0 where
  u32Type : UInt32
  fFlags : UInt32
  szComment : Vector UInt8 256
  legacyGeometry : VdiDiskGeometry
  cbDisk : UInt64
  cbBlock : UInt32
  cBlocks : UInt32
  cBlocksAllocated : UInt32
  uuidCreate : RtUuid
  uuidModify : RtUuid
  uuidLinkage : RtUuid
  deriving DecidableEq, Repr

/-- `VDIHEADER1`. -/
structure VdiHeader1 where
  cbHeader : UInt32
  u32Type : UInt32
  fFlags : UInt32
  szComment : Vector UInt8 256
  offBlocks : UInt32
  offData : UInt32
  legacyGeometry : VdiDiskGeometry
  u32Dummy : UInt32
  cbDisk : UInt64
  cbBlock : UInt32
  cbBlockExtra : UInt32
  cBlocks : UInt32
  cBlocksAllocated : UInt32
  uuidCreate : RtUuid
  uuidModify : RtUuid
  uuidLinkage : RtUuid
  uuidParentModify : RtUuid
  deriving DecidableEq, Repr

/-- `VDIHEADER`: the union of the two layouts, told apart by the major version.
The version 1 header keeps its minor version and carries the LCHS geometry that
only its "1+" form stores. -/
inductive VdiHeader where
  | v0 (hdr : VdiHeader0)
  | v1 (minor : Nat) (hdr : VdiHeader1) (lchsGeometry : VdiDiskGeometry)
  deriving DecidableEq, Repr

/-! ### Their bytes -/

def geometryCodec : Codec VdiDiskGeometry :=
  (Codec.u32le.seq (Codec.u32le.seq (Codec.u32le.seq Codec.u32le))).iso
    (fun g => (g.cCylinders, g.cHeads, g.cSectors, g.cbSector))
    (fun (c, h, s, b) => ⟨c, h, s, b⟩)
    (fun _ => rfl)

def preHeaderCodec : Codec VdiPreHeader :=
  ((Codec.bytes 64).seq (Codec.u32le.seq Codec.u32le)).iso
    (fun p => (p.szFileInfo, p.u32Signature, p.u32Version))
    (fun (i, s, v) => ⟨i, s, v⟩)
    (fun _ => rfl)

def header0Codec : Codec VdiHeader0 :=
  (Codec.u32le.seq (Codec.u32le.seq ((Codec.bytes 256).seq (geometryCodec.seq
    (Codec.u64le.seq (Codec.u32le.seq (Codec.u32le.seq (Codec.u32le.seq
      ((Codec.bytes 16).seq ((Codec.bytes 16).seq (Codec.bytes 16))))))))))).iso
    (fun h => (h.u32Type, h.fFlags, h.szComment, h.legacyGeometry, h.cbDisk, h.cbBlock, h.cBlocks,
      h.cBlocksAllocated, h.uuidCreate, h.uuidModify, h.uuidLinkage))
    (fun (t, f, c, g, d, b, n, a, uc, um, ul) => ⟨t, f, c, g, d, b, n, a, uc, um, ul⟩)
    (fun _ => rfl)

def header1Codec : Codec VdiHeader1 :=
  (Codec.u32le.seq (Codec.u32le.seq (Codec.u32le.seq ((Codec.bytes 256).seq
    (Codec.u32le.seq (Codec.u32le.seq (geometryCodec.seq (Codec.u32le.seq
      (Codec.u64le.seq (Codec.u32le.seq (Codec.u32le.seq (Codec.u32le.seq (Codec.u32le.seq
        ((Codec.bytes 16).seq ((Codec.bytes 16).seq
          ((Codec.bytes 16).seq (Codec.bytes 16))))))))))))))))).iso
    (fun h => (h.cbHeader, h.u32Type, h.fFlags, h.szComment, h.offBlocks, h.offData,
      h.legacyGeometry, h.u32Dummy, h.cbDisk, h.cbBlock, h.cbBlockExtra, h.cBlocks,
      h.cBlocksAllocated, h.uuidCreate, h.uuidModify, h.uuidLinkage, h.uuidParentModify))
    (fun (ch, t, f, c, ob, od, g, u, d, b, x, n, a, uc, um, ul, up) =>
      ⟨ch, t, f, c, ob, od, g, u, d, b, x, n, a, uc, um, ul, up⟩)
    (fun _ => rfl)

/-- The "1+" form: the version 1 header followed by the LCHS geometry. -/
def header1PlusCodec : Codec (VdiHeader1 × VdiDiskGeometry) := header1Codec.seq geometryCodec

/-- `sizeof(VDIPREHEADER)`. -/
def sizeofPreHeader : Nat := preHeaderCodec.width

/-- `sizeof(VDIHEADER0)`. -/
def sizeofHeader0 : Nat := header0Codec.width

/-- `sizeof(VDIHEADER1)`. -/
def sizeofHeader1 : Nat := header1Codec.width

/-- `sizeof(VDIHEADER1PLUS)`. -/
def sizeofHeader1Plus : Nat := header1PlusCodec.width

theorem sizeofPreHeader_eq : sizeofPreHeader = 72 := rfl

/-! ### Header access (`VDICore.h`) -/

/-- `GET_MAJOR_HEADER_VERSION`. -/
def getMajorHeaderVersion : VdiHeader → Nat
  | .v0 _ => 0
  | .v1 _ _ _ => 1

def getImageType : VdiHeader → Nat
  | .v0 h => h.u32Type.toNat
  | .v1 _ h _ => h.u32Type.toNat

def getImageFlags : VdiHeader → Nat
  | .v0 h => u32 (h.fFlags.toNat <<< 8)
  | .v1 _ h _ => u32 (h.fFlags.toNat <<< 8)

def getImageBlocksOffset : VdiHeader → Nat
  | .v0 _ => sizeofPreHeader + sizeofHeader0
  | .v1 _ h _ => h.offBlocks.toNat

def getImageDataOffset : VdiHeader → Nat
  | .v0 h => u32 (sizeofPreHeader + sizeofHeader0 + h.cBlocks.toNat * 4)
  | .v1 _ h _ => h.offData.toNat

def setImageDataOffset (offData : Nat) : VdiHeader → VdiHeader
  | .v0 h => .v0 h
  | .v1 v h g => .v1 v { h with offData := UInt32.ofNat offData } g

/-- The LCHS geometry, which only a 1.1+ header has. -/
def getImageLCHSGeometry : VdiHeader → Option VdiDiskGeometry
  | .v0 _ => none
  | .v1 v h g =>
      if v = 1 then
        if h.cbHeader.toNat < sizeofHeader1Plus then none else some g
      else none

/-- Assignment through the pointer `getImageLCHSGeometry` returns. -/
def setImageLCHSGeometry (geometry : VdiDiskGeometry) : VdiHeader → VdiHeader
  | .v0 h => .v0 h
  | .v1 v h g =>
      if v = 1 ∧ ¬ h.cbHeader.toNat < sizeofHeader1Plus then .v1 v h geometry
      else .v1 v h g

def getImageDiskSize : VdiHeader → Nat
  | .v0 h => h.cbDisk.toNat
  | .v1 _ h _ => h.cbDisk.toNat

def setImageDiskSize (cbDisk : Nat) : VdiHeader → VdiHeader
  | .v0 h => .v0 { h with cbDisk := UInt64.ofNat cbDisk }
  | .v1 v h g => .v1 v { h with cbDisk := UInt64.ofNat cbDisk } g

def getImageBlockSize : VdiHeader → Nat
  | .v0 h => h.cbBlock.toNat
  | .v1 _ h _ => h.cbBlock.toNat

def getImageExtraBlockSize : VdiHeader → Nat
  | .v0 _ => 0
  | .v1 _ h _ => h.cbBlockExtra.toNat

def getImageBlocks : VdiHeader → Nat
  | .v0 h => h.cBlocks.toNat
  | .v1 _ h _ => h.cBlocks.toNat

def setImageBlocks (cBlocks : Nat) : VdiHeader → VdiHeader
  | .v0 h => .v0 { h with cBlocks := UInt32.ofNat cBlocks }
  | .v1 v h g => .v1 v { h with cBlocks := UInt32.ofNat cBlocks } g

def getImageBlocksAllocated : VdiHeader → Nat
  | .v0 h => h.cBlocksAllocated.toNat
  | .v1 _ h _ => h.cBlocksAllocated.toNat

def setImageBlocksAllocated (cBlocks : Nat) : VdiHeader → VdiHeader
  | .v0 h => .v0 { h with cBlocksAllocated := UInt32.ofNat cBlocks }
  | .v1 v h g => .v1 v { h with cBlocksAllocated := UInt32.ofNat cBlocks } g

def getImageCreationUUID : VdiHeader → RtUuid
  | .v0 h => h.uuidCreate
  | .v1 _ h _ => h.uuidCreate

def getImageModificationUUID : VdiHeader → RtUuid
  | .v0 h => h.uuidModify
  | .v1 _ h _ => h.uuidModify

section Access

variable (header : VdiHeader)

theorem getImageBlocks_lt : getImageBlocks header < 2 ^ 32 := by
  cases header <;> exact UInt32.toNat_lt _

theorem getImageBlocksAllocated_lt : getImageBlocksAllocated header < 2 ^ 32 := by
  cases header <;> exact UInt32.toNat_lt _

theorem getImageBlockSize_lt : getImageBlockSize header < 2 ^ 32 := by
  cases header <;> exact UInt32.toNat_lt _

theorem getImageDiskSize_lt : getImageDiskSize header < 2 ^ 64 := by
  cases header <;> exact UInt64.toNat_lt _

/-- Allocating a block changes one field of the header only. -/
theorem setImageBlocksAllocated_frame (n : Nat) :
    getImageBlocks (setImageBlocksAllocated n header) = getImageBlocks header ∧
    getImageBlockSize (setImageBlocksAllocated n header) = getImageBlockSize header ∧
    getImageExtraBlockSize (setImageBlocksAllocated n header) = getImageExtraBlockSize header ∧
    getImageDiskSize (setImageBlocksAllocated n header) = getImageDiskSize header ∧
    getImageBlocksOffset (setImageBlocksAllocated n header) = getImageBlocksOffset header ∧
    getImageDataOffset (setImageBlocksAllocated n header) = getImageDataOffset header := by
  cases header <;> exact ⟨rfl, rfl, rfl, rfl, rfl, rfl⟩

theorem getImageBlocksAllocated_set {n : Nat} (bound : n < 2 ^ 32) :
    getImageBlocksAllocated (setImageBlocksAllocated n header) = n := by
  cases header <;> exact UInt32.toNat_ofNat_of_lt' bound

end Access

/-! ### Initialising and validating -/

/-- `VDI_IMAGE_TYPE_FIRST`, a normal dynamic image. -/
def vdiImageTypeNormal : Nat := 1

/-- `VDI_IMAGE_TYPE_FIXED`. -/
def vdiImageTypeFixed : Nat := 2

/-- `VDI_IMAGE_TYPE_LAST`, a differencing image. -/
def vdiImageTypeDiff : Nat := 4

/-- `VD_IMAGE_FLAGS_FIXED`. -/
def vdImageFlagsFixed : Nat := 0x10000

/-- `VD_IMAGE_FLAGS_DIFF`. -/
def vdImageFlagsDiff : Nat := 0x20000

/-- `VD_VDI_IMAGE_FLAGS_ZERO_EXPAND`. -/
def vdVdiImageFlagsZeroExpand : Nat := 0x100

/-- `VD_VDI_IMAGE_FLAGS_MASK`. -/
def vdVdiImageFlagsMask : Nat := 0x30100

/-- Some bit of `mask` is set. -/
def hasFlag (flags mask : Nat) : Bool := flags &&& mask != 0

/-- A bit outside `mask` is set. -/
def hasFlagOutside (flags mask : Nat) : Bool := flags ||| mask != mask

/-- The type as a VDI image type value. -/
def vdiTranslateImageFlags2VDI (uImageFlags : Nat) : Nat :=
  if hasFlag uImageFlags vdImageFlagsFixed then vdiImageTypeFixed
  else if hasFlag uImageFlags vdImageFlagsDiff then vdiImageTypeDiff
  else vdiImageTypeNormal

/-- The type as VD image flags. -/
def vdiTranslateVDI2ImageFlags (enmType : Nat) : Nat :=
  if enmType = vdiImageTypeFixed then vdImageFlagsFixed
  else if enmType = vdiImageTypeDiff then vdImageFlagsDiff
  else 0

/-- Halve until odd, counting; `unsigned` values need at most 32 rounds. -/
def getPowerOfTwoLoop : Nat → Nat → Nat → Nat
  | 0, _, _ => 0
  | rounds + 1, uNumber, uPower2 =>
      if uNumber % 2 = 0 then getPowerOfTwoLoop rounds (uNumber / 2) (uPower2 + 1)
      else if uNumber = 1 then uPower2 else 0

/-- The exponent of a power of two, or 0 for any other number. -/
def getPowerOfTwo (uNumber : Nat) : Nat :=
  if uNumber = 0 then 0 else getPowerOfTwoLoop 32 uNumber 0

theorem getPowerOfTwoLoop_spec {rounds uNumber uPower2 k : Nat}
    (result : getPowerOfTwoLoop rounds uNumber uPower2 = k) (nonzero : k ≠ 0) :
    ∃ e, k = uPower2 + e ∧ uNumber = 2 ^ e := by
  induction rounds generalizing uNumber uPower2 with
  | zero => exact absurd result.symm nonzero
  | succ rounds ih =>
    rw [getPowerOfTwoLoop] at result
    split at result
    · rename_i even
      obtain ⟨e, total, half⟩ := ih result
      refine ⟨e + 1, by omega, ?_⟩
      rw [pow_succ, ← half]
      omega
    · split at result
      · rename_i one
        exact ⟨0, by omega, by simpa using one⟩
      · exact absurd result.symm nonzero

/-- A number with a nonzero exponent is that power of two. -/
theorem getPowerOfTwo_spec {uNumber : Nat} (nonzero : getPowerOfTwo uNumber ≠ 0) :
    uNumber = 2 ^ getPowerOfTwo uNumber := by
  have branch : getPowerOfTwo uNumber = getPowerOfTwoLoop 32 uNumber 0 := by
    unfold getPowerOfTwo
    split
    · rename_i zero
      exact absurd (by simp [getPowerOfTwo, zero]) nonzero
    · rfl
  obtain ⟨e, total, power⟩ := getPowerOfTwoLoop_spec branch.symm nonzero
  rw [total, Nat.zero_add]
  exact power

/-- `VDI_IMAGE_FILE_INFO`, filled up with zeros. -/
def vdiImageFileInfo : Vector UInt8 64 :=
  Vector.ofFn fun i => (("<<< Oracle VM VirtualBox Disk Image >>>\n".toList.map
    fun c => UInt8.ofNat c.toNat).getD i 0)

/-- `vdiInitPreHeader`. -/
def vdiInitPreHeader : VdiPreHeader where
  szFileInfo := vdiImageFileInfo
  u32Signature := vdiImageSignature
  u32Version := vdiImageVersion

/-- `vdiValidatePreHeader`. -/
def vdiValidatePreHeader (preHdr : VdiPreHeader) : Status :=
  if preHdr.u32Signature ≠ vdiImageSignature then .verrVdVdiInvalidHeader
  else if preHdr.u32Version.toNat >>> 16 ≠ 1 ∧ preHdr.u32Version ≠ 2 then
    .verrVdVdiUnsupportedVersion
  else .vinfSuccess

/-- A geometry marked as not calculated. -/
def geometryNotCalculated : VdiDiskGeometry := ⟨0, 0, 0, vdiGeometrySectorSize⟩

/-- `vdiInitHeader`. The offsets are computed in 32 bits and the block count is
truncated to 32 bits, as in the source. -/
def vdiInitHeader (uImageFlags : Nat) (szComment : Vector UInt8 256) (cbDisk cbBlock
    cbBlockExtra cbDataAlign : Nat) (uuidCreate : RtUuid) : VdiHeader :=
  let cBlocks := if cbDisk % cbBlock ≠ 0 then u32 (u32 (cbDisk / cbBlock) + 1)
    else u32 (cbDisk / cbBlock)
  let offBlocks := rtAlign32 (sizeofPreHeader + sizeofHeader1Plus) cbDataAlign
  .v1 1
    { cbHeader := UInt32.ofNat sizeofHeader1Plus
      u32Type := UInt32.ofNat (vdiTranslateImageFlags2VDI uImageFlags)
      fFlags := if hasFlag uImageFlags vdVdiImageFlagsZeroExpand then 1 else 0
      szComment := szComment
      offBlocks := UInt32.ofNat offBlocks
      offData := UInt32.ofNat (rtAlign32 (offBlocks + cBlocks * 4) cbDataAlign)
      legacyGeometry := geometryNotCalculated
      u32Dummy := 0
      cbDisk := UInt64.ofNat cbDisk
      cbBlock := UInt32.ofNat cbBlock
      cbBlockExtra := UInt32.ofNat cbBlockExtra
      cBlocks := UInt32.ofNat cBlocks
      cBlocksAllocated := 0
      uuidCreate := uuidCreate
      uuidModify := Vector.replicate 16 0
      uuidLinkage := Vector.replicate 16 0
      uuidParentModify := Vector.replicate 16 0 }
    geometryNotCalculated

/-- The version-dependent part of `vdiValidateHeader`. -/
def validateOffsets : VdiHeader → Bool
  | .v0 _ => true
  | .v1 _ h _ =>
      sizeofHeader1 ≤ h.cbHeader.toNat && sizeofPreHeader + sizeofHeader1 ≤ h.offBlocks.toNat &&
        h.offBlocks.toNat + h.cBlocks.toNat * 4 ≤ h.offData.toNat

/-- `fFailed` of `vdiValidateHeader`: one of the common header checks fails. -/
def commonChecksFail (header : VdiHeader) : Bool :=
  decide (getImageType header < vdiImageTypeNormal ∨ vdiImageTypeDiff < getImageType header) ||
  hasFlagOutside (getImageFlags header) vdVdiImageFlagsMask ||
  (getImageLCHSGeometry header).any (fun g => g.cbSector != vdiGeometrySectorSize) ||
  decide (getImageDiskSize header = 0 ∨ getImageBlockSize header = 0 ∨ getImageBlocks header = 0 ∨
    getPowerOfTwo (getImageBlockSize header) = 0) ||
  decide (getImageBlocks header < getImageBlocksAllocated header) ||
  decide (getImageExtraBlockSize header ≠ 0 ∧ getPowerOfTwo (getImageExtraBlockSize header) = 0) ||
  decide (getImageBlockSize header * getImageBlocks header < getImageDiskSize header) ||
  rtUuidIsNull (getImageCreationUUID header) ||
  rtUuidIsNull (getImageModificationUUID header)

/-- `vdiValidateHeader`. -/
def vdiValidateHeader (header : VdiHeader) : Status :=
  if ¬ validateOffsets header then .verrVdVdiInvalidHeader
  else if commonChecksFail header then .verrVdVdiInvalidHeader
  else .vinfSuccess

theorem vdiValidateHeader_eq_success {header : VdiHeader} :
    vdiValidateHeader header = .vinfSuccess ↔
      validateOffsets header = true ∧ commonChecksFail header = false := by
  unfold vdiValidateHeader
  cases validateOffsets header <;> cases commonChecksFail header <;> simp

/-- The sizes of an accepted header. -/
structure ValidHeader (header : VdiHeader) : Prop where
  diskSize : getImageDiskSize header ≠ 0
  blocks : getImageBlocks header ≠ 0
  blockSize : getPowerOfTwo (getImageBlockSize header) ≠ 0
  allocated : getImageBlocksAllocated header ≤ getImageBlocks header
  covers : getImageDiskSize header ≤ getImageBlockSize header * getImageBlocks header

theorem validHeader_of_success {header : VdiHeader}
    (success : vdiValidateHeader header = .vinfSuccess) : ValidHeader header := by
  obtain ⟨-, common⟩ := vdiValidateHeader_eq_success.mp success
  simp only [commonChecksFail, Bool.or_eq_false_iff, decide_eq_false_iff_not] at common
  obtain ⟨⟨⟨⟨⟨⟨⟨⟨-, -⟩, -⟩, sizes⟩, allocated⟩, -⟩, covers⟩, -⟩, -⟩ := common
  exact
    { diskSize := fun zero => sizes (Or.inl zero)
      blocks := fun zero => sizes (Or.inr (Or.inr (Or.inl zero)))
      blockSize := fun zero => sizes (Or.inr (Or.inr (Or.inr zero)))
      allocated := Nat.le_of_not_lt allocated
      covers := Nat.le_of_not_lt covers }

end VBox.Storage.Vdi
