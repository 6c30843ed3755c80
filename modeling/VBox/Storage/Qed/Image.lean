import VBox.Storage.Basic

/-!
A QED image: its header, what the backend keeps of it in memory, and the functions that make
an image or change its size.

The tables are addressed through masks and shifts which `qedTableMasksInit` derives from the
cluster size and the number of table entries.
-/

namespace VBox.Storage.Qed

def QED_MAGIC : Nat := 0x00444551
def QED_CLUSTER_SIZE_MIN : Nat := 2 ^ 12
def QED_CLUSTER_SIZE_MAX : Nat := 2 ^ 26
def QED_TABLE_SIZE_MIN : Nat := 1
def QED_TABLE_SIZE_MAX : Nat := 16
def QED_CLUSTER_SIZE_DEFAULT : Nat := 64 * 1024
def QED_TABLE_SIZE_DEFAULT : Nat := 4

/-- The header as it stands at the start of the file, after the conversion to host order. -/
structure QedHeader where
  u32Magic : UInt32
  u32ClusterSize : UInt32
  u32TableSize : UInt32
  u64FeatureFlags : UInt64
  u64OffL1Table : UInt64
  u64Size : UInt64
  u32OffBackingFilename : UInt32
  u32BackingFilenameSize : UInt32

/-- `sizeof(QedHeader)`, a packed structure. -/
def sizeofQedHeader : Nat := 64

/-- The checks of `qedHdrConvertToHostEndianess`. -/
def qedHdrConvertToHostEndianess (header : QedHeader) : Bool :=
  header.u32Magic.toNat == QED_MAGIC
    && QED_CLUSTER_SIZE_MIN ≤ header.u32ClusterSize.toNat
    && header.u32ClusterSize.toNat ≤ QED_CLUSTER_SIZE_MAX
    && QED_TABLE_SIZE_MIN ≤ header.u32TableSize.toNat
    && header.u32TableSize.toNat ≤ QED_TABLE_SIZE_MAX
    && header.u64Size.toNat % 512 == 0

/-- The errors the functions below return. -/
inductive Error where
  | io
  | noMemory
  | notSupported
  | genInvalidHeader
  | vdInvalidType
  | bufferOverflow
  deriving DecidableEq, Repr

/-- The sizes, masks and shifts of `QEDIMAGE`. -/
structure Image where
  cbSize : Nat
  cbImage : Nat
  cbCluster : Nat
  cTableEntries : Nat
  cbTable : Nat
  offL1Table : Nat
  cbBackingFilename : Nat
  offBackingFilename : Nat
  fOffsetMask : Nat
  fL1Mask : Nat
  cL1Shift : Nat
  fL2Mask : Nat
  cL2Shift : Nat
  deriving DecidableEq, Repr

/-! ### Masks and shifts -/

/-- The loop `while ((u32 & 1) == 0) { u32 >>= 1; uPower2++; }`: what is left of the number and
the count. -/
def shiftOutZeros (n uPower2 : Nat) : Nat × Nat :=
  if zero : n = 0 then (0, uPower2)
  else if n &&& 1 = 0 then shiftOutZeros (n >>> 1) (uPower2 + 1)
  else (n, uPower2)
termination_by n
decreasing_by
  rw [Nat.shiftRight_eq_div_pow]
  exact Nat.div_lt_self (Nat.pos_of_ne_zero zero) (by decide)

/-- `qedGetPowerOfTwo`. -/
def qedGetPowerOfTwo (n : Nat) : Nat :=
  if n = 0 then 0
  else
    let (rest, uPower2) := shiftOutZeros n 0
    if rest = 1 then uPower2 else 0

/-- `qedTableMasksInit`. -/
def qedTableMasksInit (image : Image) : Image :=
  let cClusterBits := qedGetPowerOfTwo image.cbCluster
  let cTableBits := qedGetPowerOfTwo image.cTableEntries
  { image with
    fOffsetMask := image.cbCluster - 1
    fL2Mask := u64 ((image.cTableEntries - 1) <<< cClusterBits)
    cL2Shift := cClusterBits
    fL1Mask := u64 ((image.cTableEntries - 1) <<< (cClusterBits + cTableBits))
    cL1Shift := cClusterBits + cTableBits }

/-- Where a logical offset lies: the index in the L1 table, the index in the L2 table and the
offset in the cluster. -/
structure Place where
  idxL1 : Nat
  idxL2 : Nat
  offCluster : Nat
  deriving DecidableEq, Repr

/-- `qedConvertLogicalOffset`. -/
def qedConvertLogicalOffset (image : Image) (off : Nat) : Place :=
  { idxL1 := u32 ((off &&& image.fL1Mask) >>> image.cL1Shift)
    idxL2 := u32 ((off &&& image.fL2Mask) >>> image.cL2Shift)
    offCluster := u32 (off &&& image.fOffsetMask) }

/-- `qedCluster2Byte`. -/
def qedCluster2Byte (image : Image) (cClusters : Nat) : Nat := u64 (cClusters * image.cbCluster)

/-- `qedByte2Cluster`. -/
def qedByte2Cluster (cbCluster cb : Nat) : Nat :=
  cb / cbCluster + if cb % cbCluster ≠ 0 then 1 else 0

/-! ### Open -/

/-- `QED_FEATURE_MASK`: backing file, need check, no probing of the backing file. -/
def QED_FEATURE_MASK : Nat := 7

def QedHeader.hasFeature (header : QedHeader) (bit : Nat) : Bool :=
  header.u64FeatureFlags.toNat.testBit bit

/-- What the file and the host answer while an image is opened. -/
structure OpenEnv where
  openFile : Except Error Unit
  getSize : Except Error Nat
  readHeader : Except Error QedHeader
  /-- The outcome of `qedCheckImage`. -/
  checkImage : QedHeader → Except Error Unit
  allocBackingFilename : Bool
  readBackingFilename : Except Error Unit
  allocL1Table : Bool
  readL1Table : Except Error Unit
  cacheCreate : Except Error Unit
  flushImage : Except Error Unit

/-- Go on if the condition holds. -/
def ensure (condition : Bool) (error : Error) : Except Error Unit :=
  if condition then .ok () else .error error

/-- Take a step only for a feature that is set. -/
def ifSet (feature : Bool) (step : Except Error Unit) : Except Error Unit :=
  if feature then step else .ok ()

/-- The image state `qedOpenImage` takes from an accepted header. -/
def imageOfHeader (header : QedHeader) (cbFile : Nat) : Image :=
  let cbCluster := header.u32ClusterSize.toNat
  let cbTable := u32 (header.u32TableSize.toNat * cbCluster)
  qedTableMasksInit
    { cbSize := header.u64Size.toNat
      cbImage := cbFile
      cbCluster
      cTableEntries := cbTable / 8
      cbTable
      offL1Table := header.u64OffL1Table.toNat
      cbBackingFilename := if header.hasFeature 0 then header.u32BackingFilenameSize.toNat else 0
      offBackingFilename := if header.hasFeature 0 then header.u32OffBackingFilename.toNat else 0
      fOffsetMask := 0
      fL1Mask := 0
      cL1Shift := 0
      fL2Mask := 0
      cL2Shift := 0 }

/-- `qedOpenImage`. -/
def qedOpenImage (env : OpenEnv) (fReadOnly : Bool) : Except Error Image := do
  env.openFile
  let cbFile ← env.getSize
  ensure (sizeofQedHeader < cbFile) .genInvalidHeader
  let header ← env.readHeader
  ensure (qedHdrConvertToHostEndianess header) .genInvalidHeader
  ensure (header.u64FeatureFlags.toNat ≤ QED_FEATURE_MASK && !header.hasFeature 2) .notSupported
  ifSet (header.hasFeature 1)
    (if fReadOnly then .error .notSupported else env.checkImage header)
  ifSet (header.hasFeature 0) do
    ensure env.allocBackingFilename .noMemory
    env.readBackingFilename
  ensure env.allocL1Table .noMemory
  env.readL1Table
  env.cacheCreate
  ifSet (header.hasFeature 1) env.flushImage
  return imageOfHeader header cbFile

/-! ### Create and resize -/

/-- What the host answers while an image is created. -/
structure CreateEnv where
  openFile : Except Error Unit
  allocL1Table : Bool
  cacheCreate : Except Error Unit
  flushImage : Except Error Unit

/-- The image state `qedCreateImage` starts a new image with. -/
def freshImage (cbSize : Nat) : Image :=
  let cbCluster := QED_CLUSTER_SIZE_DEFAULT
  let cbTable := u32 (QED_TABLE_SIZE_DEFAULT * cbCluster)
  qedTableMasksInit
    { cbSize
      cbImage := cbCluster + cbTable
      cbCluster
      cTableEntries := cbTable / 8
      cbTable
      offL1Table := cbCluster
      cbBackingFilename := 0
      offBackingFilename := 0
      fOffsetMask := 0
      fL1Mask := 0
      cL1Shift := 0
      fL2Mask := 0
      cL2Shift := 0 }

/-- `qedCreateImage`. -/
def qedCreateImage (env : CreateEnv) (cbSize : UInt64) (fFixed : Bool) : Except Error Image := do
  ensure (!fFixed) .vdInvalidType
  env.openFile
  ensure env.allocL1Table .noMemory
  env.cacheCreate
  env.flushImage
  return freshImage cbSize.toNat

/-- The disk size up to which `qedResize` grows an image, a product of `uint64_t` factors. -/
def resizeLimit (image : Image) : Nat :=
  u64 (u64 (u64 (qedByte2Cluster image.cbCluster image.cbTable * image.cTableEntries)
    * image.cTableEntries) * image.cbCluster)

/-- `qedResize`: a failed flush restores the old size. -/
def qedResize (image : Image) (cbSize : UInt64) (flushImage : Except Error Unit) :
    Except Error Unit × Image :=
  if cbSize.toNat < image.cbSize then (.error .notSupported, image)
  else if image.cbSize < cbSize.toNat then
    if resizeLimit image < cbSize.toNat then (.error .bufferOverflow, image)
    else match flushImage with
      | .ok () => (.ok (), { image with cbSize := cbSize.toNat })
      | .error error => (.error error, image)
  else (.ok (), image)

end VBox.Storage.Qed
